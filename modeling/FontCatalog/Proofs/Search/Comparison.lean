import FontCatalog.Proofs.Search.Copies
import Mathlib.Algebra.GroupWithZero.Nat

/-! Buckets compared side by side. What a bucket comes to is settled before its first turn, and a step takes
from what is still to be counted just what it adds to the count; so whoever has which turn, the same files
stay, and the count grows by the number of files. -/
namespace FontCatalog.Copies
set_option autoImplicit false

variable {key : Slot → Option ByteArray}

/-! ## One bucket -/

namespace Comparison

/-- The contest after all slots of the bucket. -/
def result (key : Slot → Option ByteArray) (c : Comparison) : Contest :=
  c.ahead.foldl (Contest.judge key) c.contest

/-- How many slots are still to be counted. -/
def uncounted (c : Comparison) : Nat := c.ahead.length - c.counted.toNat

def stepsLeft (c : Comparison) : Nat := 2 * c.ahead.length - c.counted.toNat

theorem result_step (c : Comparison) : (c.step key).2.result key = c.result key := by
  obtain ⟨ahead, counted, contest⟩ := c
  cases ahead <;> cases counted <;> rfl

theorem uncounted_step (key : Slot → Option ByteArray) (c : Comparison) : (c.step key).1 + (c.step key).2.uncounted = c.uncounted := by
  obtain ⟨ahead, counted, contest⟩ := c
  cases ahead <;> cases counted <;> simp [step, uncounted]
  omega

theorem stepsLeft_step (c : Comparison) : (c.step key).2.stepsLeft = c.stepsLeft - 1 := by
  obtain ⟨ahead, counted, contest⟩ := c
  cases ahead <;> cases counted <;> simp [step, stepsLeft]
  omega

theorem ahead_of_stepsLeft {c : Comparison} (h : c.stepsLeft = 0) : c.ahead = [] := by
  have hcounted : c.counted.toNat ≤ 1 := Bool.toNat_le c.counted
  rw [stepsLeft] at h
  exact List.length_eq_zero_iff.1 (by omega)

end Comparison

/-! ## Turns -/

namespace Comparing

theorem turn_cases (key : Slot → Option ByteArray) (c : Comparing) (number : Nat) :
    c.turn key number = c ∨ ∃ before part rest, c.parts = before ++ part :: rest ∧
      c.turn key number = ⟨c.count + (part.step key).1, before ++ (part.step key).2 :: rest⟩ := by
  unfold turn
  cases hpart : c.parts[number]? with
  | none => exact .inl rfl
  | some part =>
    obtain ⟨hnumber, rfl⟩ := List.getElem?_eq_some_iff.1 hpart
    refine .inr ⟨c.parts.take number, c.parts[number], c.parts.drop (number + 1), ?_, ?_⟩
    · rw [← List.drop_eq_getElem_cons hnumber, List.take_append_drop]
    · dsimp only
      rw [List.set_eq_take_append_cons_drop, if_pos hnumber]

/-- What the buckets come to. -/
def results (key : Slot → Option ByteArray) (c : Comparing) : List Contest :=
  c.parts.map (Comparison.result key)

/-- What has been counted and what is still to be counted. -/
def total (c : Comparing) : Nat := c.count + (c.parts.map Comparison.uncounted).sum

theorem results_turn (c : Comparing) (number : Nat) : (c.turn key number).results key = c.results key := by
  rcases turn_cases key c number with hidle | ⟨before, part, rest, hparts, hturn⟩
  · rw [hidle]
  · rw [results, hturn, results, hparts, List.map_append, List.map_append, List.map_cons, List.map_cons,
      Comparison.result_step]

theorem total_turn (c : Comparing) (number : Nat) : (c.turn key number).total = c.total := by
  rcases turn_cases key c number with hidle | ⟨before, part, rest, hparts, hturn⟩
  · rw [hidle]
  · have hstep := part.uncounted_step key
    rw [total, hturn, total, hparts]
    simp only [List.map_append, List.map_cons, List.sum_append, List.sum_cons]
    omega

theorem stepsLeft_turn (key : Slot → Option ByteArray) (c : Comparing) (number i : Nat) :
    (c.turn key number).parts[i]?.map Comparison.stepsLeft =
      c.parts[i]?.map fun part => part.stepsLeft - if number = i then 1 else 0 := by
  unfold turn
  by_cases hi : number = i
  · subst hi
    cases hpart : c.parts[number]? with
    | none => rw [hpart]; rfl
    | some part =>
      obtain ⟨hnumber, -⟩ := List.getElem?_eq_some_iff.1 hpart
      dsimp only
      rw [List.getElem?_set_self hnumber, Option.map_some, Option.map_some, Comparison.stepsLeft_step, if_pos rfl]
  · cases hpart : c.parts[number]? with
    | none => simp [hi]
    | some part => simp [hi]

theorem results_after (c : Comparing) (turns : List Nat) : (c.after key turns).results key = c.results key := by
  induction turns generalizing c with
  | nil => rfl
  | cons number turns ih => exact (ih _).trans (results_turn c number)

theorem total_after (c : Comparing) (turns : List Nat) : (c.after key turns).total = c.total := by
  induction turns generalizing c with
  | nil => rfl
  | cons number turns ih => exact (ih _).trans (total_turn c number)

theorem stepsLeft_after (key : Slot → Option ByteArray) (c : Comparing) (turns : List Nat) (i : Nat) :
    (c.after key turns).parts[i]?.map Comparison.stepsLeft =
      c.parts[i]?.map fun part => part.stepsLeft - turns.count i := by
  induction turns generalizing c with
  | nil => simp [after]
  | cons number turns ih =>
    have hturn := stepsLeft_turn key c number i
    have hrest := congrArg (Option.map fun left => left - turns.count i) hturn
    rw [Option.map_map, Option.map_map] at hrest
    refine (ih _).trans (hrest.trans ?_)
    congr 1
    funext part
    rw [Function.comp_apply, List.count_cons, Nat.sub_sub, Nat.add_comm]
    simp only [beq_iff_eq]

/-! ## The end -/

theorem isDone_iff (c : Comparing) : c.isDone = true ↔ ∀ part ∈ c.parts, part.ahead = [] := by
  simp [isDone]

/-- Parts that have had as many turns as they have steps left are done. -/
theorem isDone_after (c : Comparing) {turns : List Nat}
    (h : ∀ i part, c.parts[i]? = some part → part.stepsLeft ≤ turns.count i) :
    (c.after key turns).isDone = true := by
  rw [isDone_iff]
  intro part hpart
  obtain ⟨i, hi⟩ := List.mem_iff_getElem?.1 hpart
  have hleft := stepsLeft_after key c turns i
  rw [hi, Option.map_some] at hleft
  obtain ⟨earlier, hearlier, hsteps⟩ := Option.map_eq_some_iff.1 hleft.symm
  exact Comparison.ahead_of_stepsLeft (by rw [← hsteps, Nat.sub_eq_zero_of_le (h i earlier hearlier)])

theorem contests_of_done {c : Comparing} (h : c.isDone = true) : c.parts.map (·.contest) = c.results key := by
  refine List.map_congr_left fun part hpart => ?_
  rw [Comparison.result, (isDone_iff c).1 h part hpart, List.foldl_nil]

theorem count_of_done {c : Comparing} (h : c.isDone = true) : c.count = c.total := by
  have hnone : (c.parts.map Comparison.uncounted).sum = 0 := by
    rw [List.sum_eq_zero_iff_forall_eq_nat]
    intro n hn
    obtain ⟨part, hpart, rfl⟩ := List.mem_map.1 hn
    rw [Comparison.uncounted, (isDone_iff c).1 h part hpart, List.length_nil, Nat.zero_sub]
  rw [total, hnone, Nat.add_zero]

/-! ## The beginning -/

section
variable {v : Files} {paths : List Path} {order : List (Nat × List Slot)}

theorem results_start (count : Nat) : (start v paths order count).results key =
    (order.filter fun b => b.2.length != 1).map fun b => b.2.foldl (Contest.judge key) {} := by
  rw [results, start, List.map_map]
  rfl

/-- The slots that are alone in their bucket, and those that are not. -/
theorem length_alone (order : List (Nat × List Slot)) :
    (order.filter fun b => b.2.length == 1).length + ((order.filter fun b => b.2.length != 1).map (·.2.length)).sum =
      (order.flatMap (·.2)).length := by
  induction order with
  | nil => rfl
  | cons b order ih =>
    rw [List.flatMap_cons, List.length_append, ← ih]
    by_cases hb : b.2.length = 1
    · simp [hb]
      omega
    · simp [hb]
      omega

theorem total_start (horder : order.Perm (v.buckets (slotsOf paths))) (count : Nat) :
    (start v paths order count).total = count + paths.length := by
  have hparts : ((start v paths order count).parts.map Comparison.uncounted).sum =
      ((order.filter fun b => b.2.length != 1).map (·.2.length)).sum := by
    rw [start, List.map_map]
    rfl
  have halone := length_alone order
  have hslots := length_buckets v (slotsOf paths)
  have hperm := (horder.flatMap_right (·.2)).length_eq
  rw [slotsOf_length] at hslots
  rw [total, hparts]
  dsimp only [start]
  omega

/-- The slots that have lost in the end. -/
theorem mem_lost_of_done {c : Comparing} (horder : order.Perm (v.buckets (slotsOf paths))) (hdone : c.isDone = true)
    {count : Nat} (hresults : c.results key = (start v paths order count).results key) (i : Nat) :
    (i ∈ c.parts.flatMap (·.contest.losers)) ↔
      ∃ s ∈ slotsOf paths, s.position = i ∧ Overtaken (fun s => v.size? s.path) key (slotsOf paths) s := by
  have hflat : c.parts.flatMap (·.contest.losers) =
      (order.filter fun b => b.2.length != 1).flatMap fun b => (b.2.foldl (Contest.judge key) {}).losers := by
    calc c.parts.flatMap (·.contest.losers)
      _ = (c.parts.map (·.contest)).flatMap Contest.losers := (List.flatMap_map _ _ _).symm
      _ = ((order.filter fun b => b.2.length != 1).map fun b => b.2.foldl (Contest.judge key) {}).flatMap
            Contest.losers := by rw [contests_of_done hdone, hresults, results_start]
      _ = _ := List.flatMap_map _ _ _
  have hbuckets := (bucketed_buckets v (slotsOf paths)).perm horder
  rw [hflat, ← mem_flatMap_lost (fun b => if b.length = 1 then [] else (b.foldl (Contest.judge key) {}).losers)
    hbuckets (slotsOf_ascending paths)]
  · simp only [List.mem_flatMap, List.mem_filter, bne_iff_ne]
    constructor
    · rintro ⟨b, ⟨hb, hlength⟩, hi⟩
      exact ⟨b, hb, by rwa [if_neg hlength]⟩
    · rintro ⟨b, hb, hi⟩
      split at hi
      · cases hi
      · next hlength => exact ⟨b, ⟨hb, hlength⟩, hi⟩
  · intro b i hb
    split
    · next halone =>
      simp only [List.not_mem_nil, false_iff]
      rintro ⟨s, hs, -, hbeaten⟩
      exact not_beaten_alone (Nat.le_of_eq halone) hs hbeaten
    · exact mem_foldl_judge hb i

end

end Comparing

/-! ## The files that stay -/

section
variable {digest : Digest} {v : Files} {paths : List Path}

/-- Of the places of files with these bytes, the one with the smallest path; of equal paths the earliest. -/
def IsFirst (v : Files) (paths : List Path) (data : ByteArray) (i : Nat) : Prop :=
  ∃ p, paths[i]? = some p ∧ v.bytes? p = some data ∧ ∀ j q, paths[j]? = some q → v.bytes? q = some data →
    compare p q = .lt ∨ compare p q = .eq ∧ i ≤ j

/-- These places hold every file of which no bytes are had, and of files with the same bytes the first one only. -/
structure KeepsFirsts (v : Files) (paths : List Path) (kept : List Nat) : Prop where
  ascending : kept.Pairwise (· < ·)
  within : ∀ i ∈ kept, i < paths.length
  unread : ∀ (i : Nat) (p : Path), paths[i]? = some p → v.bytes? p = none → i ∈ kept
  first : ∀ (i : Nat) (p : Path) (data : ByteArray), paths[i]? = some p → v.bytes? p = some data →
    ∃ j ∈ kept, IsFirst v paths data j ∧ ∀ k ∈ kept, ∀ q, paths[k]? = some q → v.bytes? q = some data → k = j

/-- The sizes that files are said to have are those of their bytes. -/
def Files.SizesRight (v : Files) (paths : List Path) : Prop :=
  ∀ p ∈ paths, ∀ n data, v.size? p = some n → v.read? p = some data → data.size = n

/-- Files with different bytes have different digests. -/
def Files.Apart (v : Files) (digest : Digest) (paths : List Path) : Prop :=
  ∀ p ∈ paths, ∀ q ∈ paths, ∀ a b, v.read? p = some a → v.read? q = some b → digest a = digest b → a = b

theorem Files.bytes?_eq_some {p : Path} {data : ByteArray} :
    v.bytes? p = some data ↔ (∃ n, v.size? p = some n) ∧ v.read? p = some data := by
  rw [bytes?, Option.bind_eq_some_iff]
  constructor
  · rintro ⟨n, hn, hdata⟩
    exact ⟨⟨n, hn⟩, hdata⟩
  · rintro ⟨⟨n, hn⟩, hdata⟩
    exact ⟨n, hn, hdata⟩

theorem path_mem {s : Slot} (hs : s ∈ slotsOf paths) : s.path ∈ paths := List.mem_of_getElem? (mem_slotsOf.1 hs)

/-- A slot is overtaken just where a file with the same bytes stands before it. -/
theorem overtaken_iff (hsize : v.SizesRight paths) (hdigest : v.Apart digest paths) {s : Slot}
    (hs : s ∈ slotsOf paths) :
    Overtaken (fun s => v.size? s.path) (v.digest? digest) (slotsOf paths) s ↔
      ∃ data, v.bytes? s.path = some data ∧ ∃ w ∈ slotsOf paths, v.bytes? w.path = some data ∧ w.Before s := by
  simp only [Overtaken, Files.digest?, Option.map_eq_some_iff]
  constructor
  · rintro ⟨n, k, hsn, ⟨data, hdata, rfl⟩, w, hw, hwn, ⟨data', hdata', hsame⟩, hbefore⟩
    obtain rfl := hdigest _ (path_mem hw) _ (path_mem hs) data' data hdata' hdata hsame
    exact ⟨data', Files.bytes?_eq_some.2 ⟨⟨n, hsn⟩, hdata⟩, w, hw, Files.bytes?_eq_some.2 ⟨⟨n, hwn⟩, hdata'⟩, hbefore⟩
  · rintro ⟨data, hdata, w, hw, hwdata, hbefore⟩
    obtain ⟨⟨n, hsn⟩, hread⟩ := Files.bytes?_eq_some.1 hdata
    obtain ⟨⟨n', hwn⟩, hwread⟩ := Files.bytes?_eq_some.1 hwdata
    have hn := hsize _ (path_mem hs) n data hsn hread
    have hn' := hsize _ (path_mem hw) n' data hwn hwread
    exact ⟨n, digest data, hsn, ⟨data, hread, rfl⟩, w, hw, by rw [hwn, ← hn', hn], ⟨data, hwread, rfl⟩, hbefore⟩

theorem not_before_iff {p q : Path} {i j : Nat} :
    ¬ (Slot.mk j q).Before ⟨i, p⟩ ↔ compare p q = .lt ∨ compare p q = .eq ∧ i ≤ j := by
  have hbefore : (Slot.mk j q).Before ⟨i, p⟩ ↔ (compare q p).then (compare j i) = .lt := Iff.rfl
  have hswap : compare p q = (compare q p).swap := Std.OrientedCmp.eq_swap
  rw [hbefore, hswap]
  cases compare q p with
  | lt => simp
  | gt => simp
  | eq => simp [Nat.compare_eq_lt]

open Classical in
/-- The slots that no slot with the same bytes stands before. -/
noncomputable def standing (v : Files) (paths : List Path) : List Slot :=
  (slotsOf paths).filter fun s =>
    ¬ ∃ data, v.bytes? s.path = some data ∧ ∃ w ∈ slotsOf paths, v.bytes? w.path = some data ∧ w.Before s

theorem mem_standing {s : Slot} : s ∈ standing v paths ↔ s ∈ slotsOf paths ∧
    ∀ data, v.bytes? s.path = some data → ∀ w ∈ slotsOf paths, v.bytes? w.path = some data → ¬ w.Before s := by
  simp [standing]

/-- The first of the files with the bytes of a slot. -/
theorem exists_standing {s : Slot} (hs : s ∈ slotsOf paths) {data : ByteArray} (hdata : v.bytes? s.path = some data) :
    ∃ w ∈ standing v paths, v.bytes? w.path = some data := by
  classical
  have hmem : s ∈ (slotsOf paths).filter fun w => v.bytes? w.path = some data :=
    List.mem_filter.2 ⟨hs, decide_eq_true hdata⟩
  obtain ⟨w, hw, hfirst⟩ := exists_first (List.ne_nil_of_mem hmem)
  obtain ⟨hw, hwdata⟩ := List.mem_filter.1 hw
  refine ⟨w, mem_standing.2 ⟨hw, ?_⟩, of_decide_eq_true hwdata⟩
  intro data' hdata' u hu hudata
  obtain rfl := Option.some.inj (hdata'.symm.trans (of_decide_eq_true hwdata))
  exact hfirst u (List.mem_filter.2 ⟨hu, decide_eq_true hudata⟩)

theorem isFirst_of_standing {s : Slot} (hs : s ∈ standing v paths) {data : ByteArray}
    (hdata : v.bytes? s.path = some data) : IsFirst v paths data s.position := by
  obtain ⟨hmem, hfirst⟩ := mem_standing.1 hs
  refine ⟨s.path, mem_slotsOf.1 hmem, hdata, fun j q hj hq => ?_⟩
  exact not_before_iff.1 (hfirst data hdata ⟨j, q⟩ (mem_slotsOf.2 hj) hq)

theorem keepsFirsts_standing (v : Files) (paths : List Path) :
    KeepsFirsts v paths ((standing v paths).map (·.position)) where
  ascending := List.pairwise_map.2 ((slotsOf_ascending paths).filter _)
  within i hi := by
    obtain ⟨s, hs, rfl⟩ := List.mem_map.1 hi
    exact (List.getElem?_eq_some_iff.1 (mem_slotsOf.1 (mem_standing.1 hs).1)).1
  unread i p hi hnone := by
    refine List.mem_map.2 ⟨⟨i, p⟩, mem_standing.2 ⟨mem_slotsOf.2 hi, fun data hdata => ?_⟩, rfl⟩
    rw [hnone] at hdata
    cases hdata
  first i p data hi hdata := by
    obtain ⟨w, hw, hwdata⟩ := exists_standing (s := ⟨i, p⟩) (mem_slotsOf.2 hi) hdata
    refine ⟨w.position, List.mem_map_of_mem hw, isFirst_of_standing hw hwdata, ?_⟩
    intro k hk q hq hqdata
    obtain ⟨u, hu, rfl⟩ := List.mem_map.1 hk
    obtain ⟨hwmem, hwfirst⟩ := mem_standing.1 hw
    obtain ⟨humem, hufirst⟩ := mem_standing.1 hu
    have hudata : v.bytes? u.path = some data := by
      obtain rfl := Option.some.inj ((mem_slotsOf.1 humem).symm.trans hq)
      exact hqdata
    -- Neither of the two stands before the other.
    have hle := not_before_iff.1 (hwfirst data hwdata u humem hudata)
    have hge := not_before_iff.1 (hufirst data hudata w hwmem hwdata)
    have hswap : compare u.path w.path = (compare w.path u.path).swap := Std.OrientedCmp.eq_swap
    rw [hswap] at hge
    rcases hle with hlt | ⟨heq, hwu⟩
    · rw [hlt] at hge
      simp at hge
    · rw [heq] at hge
      simp at hge
      omega

theorem filterMap_standing (v : Files) (paths : List Path) :
    ((standing v paths).map (·.position)).filterMap (paths[·]?) = (standing v paths).map (·.path) := by
  rw [List.filterMap_map, ← List.filterMap_eq_map]
  exact List.filterMap_congr fun s hs => mem_slotsOf.1 (mem_standing.1 hs).1

/-- Without those that have been overtaken the standing slots are left. -/
theorem filter_lost (hsize : v.SizesRight paths) (hdigest : v.Apart digest paths) {lost : List Nat}
    (hlost : ∀ i, i ∈ lost ↔ ∃ s ∈ slotsOf paths, s.position = i ∧
      Overtaken (fun s => v.size? s.path) (v.digest? digest) (slotsOf paths) s) :
    (slotsOf paths).filter (fun s => !lost.contains s.position) = standing v paths := by
  refine List.filter_congr fun s hs => ?_
  rw [Bool.eq_iff_iff, Bool.not_eq_true', List.contains_eq_mem, decide_eq_false_iff_not, decide_eq_true_iff, hlost,
    ← overtaken_iff hsize hdigest hs]
  refine not_congr ⟨?_, fun h => ⟨s, hs, rfl, h⟩⟩
  rintro ⟨w, hw, hposition, h⟩
  rwa [← eq_of_position hw hs hposition]

/-- In a tree the files are compared bucket by bucket, with the same end. -/
theorem uniqueBy_eq {t : FileTree} (hsize : (Files.ofTree t).SizesRight paths)
    (hdigest : (Files.ofTree t).Apart digest paths) :
    uniqueBy digest t paths = (standing (.ofTree t) paths).map (·.path) := by
  have hkey : digestOf digest t = (Files.ofTree t).digest? digest := by
    funext s
    show ((t.read s.path).toOption.map fun data => (data.size, digest data)).map Prod.snd = _
    rw [Option.map_map]
    rfl
  refine congrArg (List.map Slot.path) (filter_lost hsize hdigest fun i => ?_)
  rw [← hkey]
  exact mem_flatMap_lost _ (bucketed_buckets (.ofTree t) (slotsOf paths)) (slotsOf_ascending paths)
    (fun b i hb => mem_losers_iff hb i) i

/-- Whatever the order of the buckets and the turns of their parts, the files that stay are the same, and each of
the paths is counted once. -/
theorem compared_keeps_firsts (digest : Digest) (v : Files) (paths : List Path) (hsize : v.SizesRight paths)
    (hdigest : v.Apart digest paths) :
    ∃ kept, KeepsFirsts v paths kept ∧
      (∀ order, order.Perm (v.buckets (slotsOf paths)) → ∀ count turns,
        let start := Comparing.start v paths order count
        let c := start.after (v.digest? digest) turns
        ((∀ i part, start.parts[i]? = some part → part.stepsLeft ≤ turns.count i) → c.isDone = true) ∧
        (c.isDone = true → c.survivors paths = kept.filterMap (paths[·]?) ∧ c.count = count + paths.length)) ∧
      ∀ t, v = .ofTree t → uniqueBy digest t paths = kept.filterMap (paths[·]?) ∧ examined t paths = paths.length := by
  refine ⟨(standing v paths).map (·.position), keepsFirsts_standing v paths, ?_, ?_⟩
  · intro order horder count turns start c
    refine ⟨Comparing.isDone_after start, fun hdone => ⟨?_, ?_⟩⟩
    · rw [filterMap_standing]
      exact congrArg (List.map Slot.path) (filter_lost hsize hdigest
        (Comparing.mem_lost_of_done horder hdone (Comparing.results_after start turns)))
    · rw [Comparing.count_of_done hdone, Comparing.total_after, Comparing.total_start horder]
  · rintro t rfl
    rw [filterMap_standing]
    exact ⟨uniqueBy_eq hsize hdigest, examined_eq t paths⟩

end

/-- The bytes of five files, two of which are copies. -/
def contents (p : Path) : Option ByteArray :=
  [(Path.ofString "a", ⟨#[7]⟩), (.ofString "b", ⟨#[7]⟩), (.ofString "c", ⟨#[8]⟩), (.ofString "d", ⟨#[7, 7]⟩),
    (.ofString "g", ⟨#[7, 8]⟩)].lookup p

/-- The same files and one of the size of a copy that cannot be read. -/
def folder : Files where
  size? p := if p = .ofString "e" then some 1 else (contents p).map ByteArray.size
  read? := contents

theorem compared_keeps_firsts_folder :
    let paths := ["b", "c", "a", "e", "d", "f", "b", "g"].map Path.ofString
    folder.SizesRight paths ∧ folder.Apart id paths ∧ ∃ kept, KeepsFirsts folder paths kept ∧
      kept.filterMap (paths[·]?) = ["c", "a", "e", "d", "f", "g"].map Path.ofString := by
  intro paths
  have hsize : folder.SizesRight paths := by
    intro p _ n data hn hdata
    unfold folder at hn hdata
    dsimp only at hn hdata
    split at hn
    · next he =>
      subst he
      cases hdata
    · rw [hdata] at hn
      exact Option.some.inj hn
  have hdigest : folder.Apart id paths := fun _ _ _ _ _ _ _ _ hsame => hsame
  obtain ⟨kept, hkept, hrun, -⟩ := compared_keeps_firsts id folder paths hsize hdigest
  obtain ⟨-, hdone⟩ := hrun _ (List.reverse_perm _) 0 (List.replicate 10 [0, 1]).flatten
  refine ⟨hsize, hdigest, kept, hkept, ?_⟩
  rw [← (hdone (by decide +kernel)).1]
  decide +kernel

end FontCatalog.Copies
