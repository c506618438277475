import FontCatalog.Search.Comparison
import Mathlib.Data.List.Induction
import Mathlib.Data.List.Nodup

/-! Which files are left out as copies. A slot loses to the slots of its bucket that have its digest and
stand before it, by path and then by place; so a file is left out just where another one of its size and
digest stands before it, and of all of them the first one stays. -/
namespace FontCatalog
set_option autoImplicit false

instance : Std.TransOrd Path := inferInstanceAs (Std.TransCmp (compareOn Path.key))

namespace Copies

variable {digest : Digest} {t : FileTree} {paths : List Path}

/-! ## Slots -/

instance : Ord Slot where
  compare a b := (compare a.path b.path).then (compare a.position b.position)

instance : Std.TransOrd Slot :=
  inferInstanceAs (Std.TransCmp (compareLex (compareOn Slot.path) (compareOn Slot.position)))

abbrev Slot.Before (a b : Slot) : Prop := compare a b = .lt

theorem Slot.before_trans {a b c : Slot} (hab : a.Before b) (hbc : b.Before c) : a.Before c :=
  Std.TransCmp.lt_trans hab hbc

theorem Slot.not_before {a b : Slot} (h : a.Before b) : ¬ b.Before a := by
  intro hba
  rw [Slot.Before, Std.OrientedCmp.gt_of_lt h] at hba
  cases hba

theorem Slot.not_before_self (a : Slot) : ¬ a.Before a := fun h => Slot.not_before h h

theorem Slot.before_of_path {a b : Slot} (h : compare a.path b.path = .lt) : a.Before b := by
  show (compare a.path b.path).then _ = .lt
  rw [h]
  rfl

theorem Slot.before_of_position {a b : Slot} (h : ¬ compare b.path a.path = .lt) (hposition : a.position < b.position) :
    a.Before b := by
  show (compare a.path b.path).then (compare a.position b.position) = .lt
  cases hpath : compare a.path b.path with
  | lt => rfl
  | eq => exact Nat.compare_eq_lt.2 hposition
  | gt => exact absurd (Std.OrientedCmp.lt_of_gt hpath) h

theorem slotsOf_paths (paths : List Path) : (slotsOf paths).map (·.path) = paths := by
  rw [slotsOf, List.map_map]
  exact List.zipIdx_map_fst 0 paths

theorem slotsOf_length (paths : List Path) : (slotsOf paths).length = paths.length := by
  simp [slotsOf]

theorem slotsOf_ascending (paths : List Path) : (slotsOf paths).Pairwise fun a b => a.position < b.position := by
  rw [slotsOf, List.pairwise_map]
  have hindices : ((paths.zipIdx).map Prod.snd).Pairwise (· < ·) := by
    rw [List.zipIdx_map_snd]
    exact List.pairwise_lt_range'
  exact List.pairwise_map.1 hindices

theorem mem_slotsOf {s : Slot} : s ∈ slotsOf paths ↔ paths[s.position]? = some s.path := by
  obtain ⟨i, p⟩ := s
  have hindex : (p, i) ∈ paths.zipIdx ↔ paths[i]? = some p := List.mem_zipIdx_iff_getElem?
  rw [slotsOf, List.mem_map, ← hindex]
  constructor
  · rintro ⟨⟨q, j⟩, hmem, heq⟩
    cases heq
    exact hmem
  · intro hmem
    exact ⟨(p, i), hmem, rfl⟩

theorem eq_of_position {s v : Slot} (hs : s ∈ slotsOf paths) (hv : v ∈ slotsOf paths)
    (h : s.position = v.position) : s = v := by
  rw [mem_slotsOf, h] at hs
  rw [mem_slotsOf, hs] at hv
  obtain ⟨i, p⟩ := s
  obtain ⟨j, q⟩ := v
  cases h
  cases hv
  rfl

/-- Among slots there is a first one. -/
theorem exists_first {slots : List Slot} (h : slots ≠ []) : ∃ w ∈ slots, ∀ v ∈ slots, ¬ v.Before w := by
  induction slots with
  | nil => exact absurd rfl h
  | cons s rest ih =>
    by_cases hrest : rest = []
    · subst hrest
      exact ⟨s, List.mem_cons_self, List.forall_mem_singleton.2 (Slot.not_before_self s)⟩
    · obtain ⟨w, hw, hfirst⟩ := ih hrest
      by_cases hs : s.Before w
      · refine ⟨s, List.mem_cons_self, List.forall_mem_cons.2 ⟨Slot.not_before_self s, ?_⟩⟩
        intro v hv hvs
        exact hfirst v hv (Slot.before_trans hvs hs)
      · exact ⟨w, List.mem_cons_of_mem _ hw, List.forall_mem_cons.2 ⟨hs, hfirst⟩⟩

/-! ## What files are compared by -/

/-- The size and the digest of the file under a path, if it can be read. -/
def mark? (digest : Digest) (t : FileTree) (p : Path) : Option (Nat × ByteArray) :=
  (t.read p).toOption.map fun data => (data.size, digest data)

theorem size?_eq (digest : Digest) (p : Path) : size? t p = (mark? digest t p).map Prod.fst := by
  unfold size? mark? FileTree.read
  cases t.status true p with
  | error e => rfl
  | ok place =>
    obtain ⟨l, n⟩ := place
    cases n <;> rfl

/-- The digest of the file of a slot. -/
def digestOf (digest : Digest) (t : FileTree) (s : Slot) : Option ByteArray :=
  (mark? digest t s.path).map Prod.snd

theorem mark?_eq_some_iff {s : Slot} {n : Nat} {k : ByteArray} :
    mark? digest t s.path = some (n, k) ↔ size? t s.path = some n ∧ digestOf digest t s = some k := by
  rw [size?_eq digest, digestOf]
  cases mark? digest t s.path with
  | none => simp
  | some m => simp [Prod.ext_iff]

theorem enter_eq (digest : Digest) (t : FileTree) : Contest.enter digest t = Contest.judge (digestOf digest t) := by
  funext c s
  unfold Contest.enter Contest.judge digestOf mark?
  cases t.read s.path <;> rfl

/-! ## Contests -/

/-- Where each key stands once, an entry other than the changed one has another key and was there before. -/
theorem mem_of_mem_changed {α β : Type} {before after : List (α × β)} {j k : α} {u v w : β}
    (hkeys : ((before ++ (k, w) :: after).map Prod.fst).Nodup) (h : (j, u) ∈ before ++ (k, v) :: after)
    (hother : (j, u) ≠ (k, v)) : j ≠ k ∧ (j, u) ∈ before ++ (k, w) :: after := by
  have hkept : (j, u) ∈ before ++ after := by simpa [hother] using h
  refine ⟨?_, ((List.sublist_cons_self _ after).append_left before).subset hkept⟩
  rintro rfl
  rw [List.map_append, List.map_cons, List.nodup_middle, List.nodup_cons] at hkeys
  have hkey : j ∈ (before ++ after).map Prod.fst := List.mem_map_of_mem hkept
  rw [List.map_append] at hkey
  exact hkeys.1 hkey

/-- A newcomer with a digest of its own joins the winners; otherwise it or the winner so far loses. -/
theorem meet_cases (k : ByteArray) (s : Slot) (winners : List (ByteArray × Slot)) :
    (k ∉ winners.map Prod.fst ∧ meet k s winners = (winners ++ [(k, s)], none)) ∨
      ∃ before w after, winners = before ++ (k, w) :: after ∧
        meet k s winners = if compare s.path w.path = .lt then (before ++ (k, s) :: after, some w.position)
          else (winners, some s.position) := by
  induction winners with
  | nil => exact .inl ⟨List.not_mem_nil, rfl⟩
  | cons first rest ih =>
    obtain ⟨j, v⟩ := first
    by_cases hj : j = k
    · subst hj
      refine .inr ⟨[], v, rest, rfl, ?_⟩
      rw [meet, if_pos rfl]
      rfl
    · rcases ih with ⟨hnew, hmeet⟩ | ⟨before, w, after, rfl, hmeet⟩
      · refine .inl ⟨?_, ?_⟩
        · rw [List.map_cons, List.mem_cons, not_or]
          exact ⟨Ne.symm hj, hnew⟩
        · rw [meet, if_neg hj, hmeet]
          rfl
      · refine .inr ⟨(j, v) :: before, w, after, rfl, ?_⟩
        rw [meet, if_neg hj, hmeet]
        by_cases hpath : compare s.path w.path = .lt
        · rw [if_pos hpath, if_pos hpath]
          rfl
        · rw [if_neg hpath, if_neg hpath]

section
variable (key : Slot → Option ByteArray)

/-- Whether among these slots one with the digest of `s` stands before it. -/
def Beaten (slots : List Slot) (s : Slot) : Prop :=
  ∃ k, key s = some k ∧ ∃ w ∈ slots, key w = some k ∧ w.Before s

/-- A contest among these slots so far. -/
structure Judged (slots : List Slot) (c : Contest) : Prop where
  keys : (c.winners.map Prod.fst).Nodup
  best : ∀ k w, (k, w) ∈ c.winners →
    w ∈ slots ∧ key w = some k ∧ ∀ s ∈ slots, key s = some k → s = w ∨ w.Before s
  covers : ∀ s ∈ slots, ∀ k, key s = some k → k ∈ c.winners.map Prod.fst
  losers : ∀ i, i ∈ c.losers ↔ ∃ s ∈ slots, s.position = i ∧ Beaten key slots s

end

section
variable {key : Slot → Option ByteArray} {slots : List Slot} {c : Contest} {s w : Slot} {k : ByteArray}

/-- A slot after all others beats those that it stands before, or is beaten itself. -/
theorem beaten_concat (i : Nat) : (∃ v ∈ slots ++ [s], v.position = i ∧ Beaten key (slots ++ [s]) v) ↔
    (∃ v ∈ slots, v.position = i ∧ Beaten key slots v) ∨
      (∃ v ∈ slots, v.position = i ∧ ∃ k, key v = some k ∧ key s = some k ∧ s.Before v) ∨
      (s.position = i ∧ Beaten key slots s) := by
  simp only [Beaten, List.mem_append, List.mem_singleton]
  constructor
  · rintro ⟨v, hv | rfl, hi, k, hk, w, hw | rfl, hwk, hbefore⟩
    · exact .inl ⟨v, hv, hi, k, hk, w, hw, hwk, hbefore⟩
    · exact .inr (.inl ⟨v, hv, hi, k, hk, hwk, hbefore⟩)
    · exact .inr (.inr ⟨hi, k, hk, w, hw, hwk, hbefore⟩)
    · exact absurd hbefore (Slot.not_before_self _)
  · rintro (⟨v, hv, hi, k, hk, w, hw, hwk, hbefore⟩ | ⟨v, hv, hi, k, hk, hsk, hbefore⟩ |
      ⟨hi, k, hk, w, hw, hwk, hbefore⟩)
    · exact ⟨v, .inl hv, hi, k, hk, w, .inl hw, hwk, hbefore⟩
    · exact ⟨v, .inl hv, hi, k, hk, s, .inr rfl, hsk, hbefore⟩
    · exact ⟨s, .inr rfl, hi, k, hk, w, .inl hw, hwk, hbefore⟩

/-- A slot whose digest no other one has changes no judgement. -/
theorem beaten_apart (h : Judged key slots c) (hs : ∀ k, key s = some k → k ∉ c.winners.map Prod.fst) (i : Nat) :
    i ∈ c.losers ↔ ∃ v ∈ slots ++ [s], v.position = i ∧ Beaten key (slots ++ [s]) v := by
  rw [beaten_concat, h.losers]
  constructor
  · exact .inl
  · rintro (hlost | ⟨v, hv, -, k, hk, hsk, -⟩ | ⟨-, k, hsk, w, hw, hwk, -⟩)
    · exact hlost
    · exact absurd (h.covers v hv k hk) (hs k hsk)
    · exact absurd (h.covers w hw k hwk) (hs k hsk)

theorem judged_unread (h : Judged key slots c) (hs : key s = none) : Judged key (slots ++ [s]) c := by
  have hread (k : ByteArray) : ¬ key s = some k := by simp [hs]
  refine ⟨h.keys, ?_, ?_, beaten_apart h fun k hk => absurd hk (hread k)⟩
  · intro k w hw
    obtain ⟨hmem, hk, hfirst⟩ := h.best k w hw
    refine ⟨List.mem_append_left _ hmem, hk, ?_⟩
    rw [List.forall_mem_append, List.forall_mem_singleton]
    exact ⟨hfirst, fun hsk => absurd hsk (hread k)⟩
  · rw [List.forall_mem_append, List.forall_mem_singleton]
    exact ⟨h.covers, fun k hsk => absurd hsk (hread k)⟩

theorem judged_newcomer (h : Judged key slots c) (hs : key s = some k) (hnew : k ∉ c.winners.map Prod.fst) :
    Judged key (slots ++ [s]) ⟨c.winners ++ [(k, s)], c.losers⟩ := by
  have honly {j : ByteArray} (hj : key s = some j) : j = k := Option.some.inj (hj.symm.trans hs)
  have hapart := beaten_apart h fun j hj => honly hj ▸ hnew
  refine ⟨?_, ?_, ?_, hapart⟩
  · rw [List.map_append]
    exact h.keys.append (List.nodup_singleton k) (List.disjoint_singleton.2 hnew)
  · intro j w hw
    rcases List.mem_append.1 hw with hw | hw
    · obtain ⟨hmem, hj, hfirst⟩ := h.best j w hw
      refine ⟨List.mem_append_left _ hmem, hj, ?_⟩
      rw [List.forall_mem_append, List.forall_mem_singleton]
      refine ⟨hfirst, ?_⟩
      intro hsj
      exact absurd (List.mem_map_of_mem hw) (honly hsj ▸ hnew)
    · cases List.mem_singleton.1 hw
      refine ⟨List.mem_append_right _ (List.mem_singleton_self _), hs, ?_⟩
      rw [List.forall_mem_append, List.forall_mem_singleton]
      exact ⟨fun v hv hvk => absurd (h.covers v hv k hvk) hnew, fun _ => .inl rfl⟩
  · rw [List.forall_mem_append, List.forall_mem_singleton]
    constructor
    · intro v hv j hj
      rw [List.map_append]
      exact List.mem_append_left _ (h.covers v hv j hj)
    · intro j hj
      rw [honly hj]
      simp

theorem judged_overtaking (h : Judged key slots c) (hs : key s = some k) {before after : List (ByteArray × Slot)}
    (hwinners : c.winners = before ++ (k, w) :: after) (hbefore : s.Before w) :
    Judged key (slots ++ [s]) ⟨before ++ (k, s) :: after, w.position :: c.losers⟩ := by
  have hkeys : (before ++ (k, s) :: after).map Prod.fst = c.winners.map Prod.fst := by
    rw [hwinners, List.map_append, List.map_append, List.map_cons, List.map_cons]
  have hold : (k, w) ∈ c.winners := by
    rw [hwinners]
    exact List.mem_append_right _ List.mem_cons_self
  obtain ⟨hw, hwk, hfirst⟩ := h.best k w hold
  refine ⟨?_, ?_, ?_, ?_⟩
  · rw [hkeys]
    exact h.keys
  · intro j v hv
    by_cases hvs : (j, v) = (k, s)
    · cases hvs
      refine ⟨List.mem_append_right _ (List.mem_singleton_self _), hs, ?_⟩
      rw [List.forall_mem_append, List.forall_mem_singleton]
      refine ⟨?_, fun _ => .inl rfl⟩
      intro u hu huk
      rcases hfirst u hu huk with rfl | hwu
      · exact .inr hbefore
      · exact .inr (Slot.before_trans hbefore hwu)
    · obtain ⟨hne, hkept⟩ := mem_of_mem_changed (hwinners ▸ h.keys) hv hvs
      obtain ⟨hmem, hj, hvfirst⟩ := h.best j v (hwinners ▸ hkept)
      refine ⟨List.mem_append_left _ hmem, hj, ?_⟩
      rw [List.forall_mem_append, List.forall_mem_singleton]
      exact ⟨hvfirst, fun hsj => absurd (Option.some.inj (hsj.symm.trans hs)) hne⟩
  · rw [hkeys, List.forall_mem_append, List.forall_mem_singleton]
    refine ⟨h.covers, ?_⟩
    intro j hj
    rw [Option.some.inj (hj.symm.trans hs)]
    exact List.mem_map_of_mem hold
  · intro i
    rw [List.mem_cons, h.losers, beaten_concat]
    constructor
    · rintro (rfl | hlost)
      · exact .inr (.inl ⟨w, hw, rfl, k, hwk, hs, hbefore⟩)
      · exact .inl hlost
    · rintro (hlost | ⟨v, hv, hi, j, hj, hsj, hsv⟩ | ⟨-, j, hsj, v, hv, hvj, hvs⟩)
      · exact .inr hlost
      · obtain rfl := Option.some.inj (hsj.symm.trans hs)
        rcases hfirst v hv hj with rfl | hwv
        · exact .inl hi.symm
        · exact .inr ⟨v, hv, hi, j, hj, w, hw, hwk, hwv⟩
      · obtain rfl := Option.some.inj (hsj.symm.trans hs)
        rcases hfirst v hv hvj with rfl | hwv
        · exact absurd hvs (Slot.not_before hbefore)
        · exact absurd (Slot.before_trans hwv hvs) (Slot.not_before hbefore)

theorem judged_trailing (h : Judged key slots c) (hs : key s = some k) (hw : (k, w) ∈ c.winners)
    (hbefore : w.Before s) : Judged key (slots ++ [s]) ⟨c.winners, s.position :: c.losers⟩ := by
  obtain ⟨hmem, hwk, hfirst⟩ := h.best k w hw
  refine ⟨h.keys, ?_, ?_, ?_⟩
  · intro j v hv
    obtain ⟨hvmem, hj, hvfirst⟩ := h.best j v hv
    refine ⟨List.mem_append_left _ hvmem, hj, ?_⟩
    rw [List.forall_mem_append, List.forall_mem_singleton]
    refine ⟨hvfirst, ?_⟩
    intro hsj
    obtain rfl := Option.some.inj (hsj.symm.trans hs)
    -- Each of the two winners stands before the other unless they are one.
    rcases hvfirst w hmem hwk with rfl | hvw
    · exact .inr hbefore
    · exact .inr (Slot.before_trans hvw hbefore)
  · rw [List.forall_mem_append, List.forall_mem_singleton]
    refine ⟨h.covers, ?_⟩
    intro j hj
    rw [Option.some.inj (hj.symm.trans hs)]
    exact List.mem_map_of_mem hw
  · intro i
    rw [List.mem_cons, h.losers, beaten_concat]
    constructor
    · rintro (rfl | hlost)
      · exact .inr (.inr ⟨rfl, k, hs, w, hmem, hwk, hbefore⟩)
      · exact .inl hlost
    · rintro (hlost | ⟨v, hv, hi, j, hj, hsj, hsv⟩ | ⟨hi, -⟩)
      · exact .inr hlost
      · obtain rfl := Option.some.inj (hsj.symm.trans hs)
        rcases hfirst v hv hj with rfl | hwv
        · exact absurd hsv (Slot.not_before hbefore)
        · exact .inr ⟨v, hv, hi, j, hj, w, hmem, hwk, hwv⟩
      · exact .inl hi.symm

theorem judged_judge (h : Judged key slots c) (hlater : ∀ w ∈ slots, w.position < s.position) :
    Judged key (slots ++ [s]) (c.judge key s) := by
  unfold Contest.judge
  cases hs : key s with
  | none => exact judged_unread h hs
  | some k =>
    dsimp only
    rcases meet_cases k s c.winners with ⟨hnew, hmeet⟩ | ⟨before, w, after, hwinners, hmeet⟩
    · rw [hmeet]
      exact judged_newcomer h hs hnew
    · have hw : (k, w) ∈ c.winners := by
        rw [hwinners]
        exact List.mem_append_right _ List.mem_cons_self
      rw [hmeet]
      by_cases hpath : compare s.path w.path = .lt
      · rw [if_pos hpath]
        exact judged_overtaking h hs hwinners (Slot.before_of_path hpath)
      · rw [if_neg hpath]
        exact judged_trailing h hs hw (Slot.before_of_position hpath (hlater w (h.best k w hw).1))

theorem judged_foldl (rest : List Slot) (h : Judged key slots c)
    (hlater : (slots ++ rest).Pairwise fun a b => a.position < b.position) :
    Judged key (slots ++ rest) (rest.foldl (Contest.judge key) c) := by
  induction rest generalizing slots c with
  | nil => rwa [List.append_nil]
  | cons s rest ih =>
    rw [List.append_cons] at hlater ⊢
    have hs := (List.pairwise_append.1 (List.pairwise_append.1 hlater).1).2.2
    exact ih (judged_judge h fun w hw => hs w hw s (List.mem_singleton_self s)) hlater

theorem judged_nil (key : Slot → Option ByteArray) : Judged key [] {} where
  keys := List.nodup_nil
  best := nofun
  covers := nofun
  losers := by simp

/-- The losers among slots that have all been compared. -/
theorem mem_foldl_judge (hslots : slots.Pairwise fun a b => a.position < b.position) (i : Nat) :
    i ∈ (slots.foldl (Contest.judge key) {}).losers ↔ ∃ s ∈ slots, s.position = i ∧ Beaten key slots s :=
  (judged_foldl slots (judged_nil key) hslots).losers i

theorem not_beaten_alone (halone : slots.length ≤ 1) (hs : s ∈ slots) : ¬ Beaten key slots s := by
  rintro ⟨k, -, w, hw, -, hbefore⟩
  have hsame : w = s := by
    match slots, halone with
    | [v], _ => rw [List.mem_singleton.1 hw, List.mem_singleton.1 hs]
  rw [hsame] at hbefore
  exact Slot.not_before_self s hbefore

/-- The losers of a bucket. -/
theorem mem_losers_iff (hslots : slots.Pairwise fun a b => a.position < b.position) (i : Nat) :
    i ∈ losers digest t slots ↔ ∃ s ∈ slots, s.position = i ∧ Beaten (digestOf digest t) slots s := by
  unfold losers
  split
  · next halone =>
    simp only [List.not_mem_nil, false_iff]
    rintro ⟨s, hs, -, hbeaten⟩
    exact not_beaten_alone halone hs hbeaten
  · rw [enter_eq]
    exact mem_foldl_judge hslots i

/-! ## Buckets -/

theorem addToBucket_cases (n : Nat) (s : Slot) (bs : List (Nat × List Slot)) :
    (n ∉ bs.map Prod.fst ∧ addToBucket n s bs = bs ++ [(n, [s])]) ∨
      ∃ before b after, bs = before ++ (n, b) :: after ∧
        addToBucket n s bs = before ++ (n, b ++ [s]) :: after := by
  induction bs with
  | nil => exact .inl ⟨List.not_mem_nil, rfl⟩
  | cons first rest ih =>
    obtain ⟨m, b⟩ := first
    by_cases hm : m = n
    · subst hm
      refine .inr ⟨[], b, rest, rfl, ?_⟩
      rw [addToBucket, if_pos rfl]
      rfl
    · rcases ih with ⟨hnew, hadd⟩ | ⟨before, b', after, rfl, hadd⟩
      · refine .inl ⟨?_, ?_⟩
        · rw [List.map_cons, List.mem_cons, not_or]
          exact ⟨Ne.symm hm, hnew⟩
        · rw [addToBucket, if_neg hm, hadd]
          rfl
      · refine .inr ⟨(m, b) :: before, b', after, rfl, ?_⟩
        rw [addToBucket, if_neg hm, hadd]
        rfl

/-- The buckets of these slots. -/
structure Bucketed (size : Slot → Option Nat) (slots : List Slot) (bs : List (Nat × List Slot)) : Prop where
  sizes : (bs.map Prod.fst).Nodup
  holds : ∀ n b, (n, b) ∈ bs → b = slots.filter fun s => size s = some n
  covers : ∀ s ∈ slots, ∀ n, size s = some n → n ∈ bs.map Prod.fst

variable {size : Slot → Option Nat} {bs : List (Nat × List Slot)} {n : Nat}

theorem filter_concat_other (h : size s ≠ some n) :
    (slots ++ [s]).filter (fun s => size s = some n) = slots.filter fun s => size s = some n := by
  simp [h]

theorem bucketed_unsized (h : Bucketed size slots bs) (hs : size s = none) : Bucketed size (slots ++ [s]) bs := by
  have hsize (n : Nat) : ¬ size s = some n := by simp [hs]
  refine ⟨h.sizes, ?_, ?_⟩
  · intro n b hb
    rw [filter_concat_other (hsize n)]
    exact h.holds n b hb
  · rw [List.forall_mem_append, List.forall_mem_singleton]
    exact ⟨h.covers, fun n hn => absurd hn (hsize n)⟩

theorem bucketed_add (h : Bucketed size slots bs) (hs : size s = some n) :
    Bucketed size (slots ++ [s]) (addToBucket n s bs) := by
  have honly {m : Nat} (hm : size s = some m) : m = n := Option.some.inj (hm.symm.trans hs)
  rcases addToBucket_cases n s bs with ⟨hnew, hadd⟩ | ⟨before, b, after, hbs, hadd⟩
  · rw [hadd]
    refine ⟨?_, ?_, ?_⟩
    · rw [List.map_append]
      exact h.sizes.append (List.nodup_singleton n) (List.disjoint_singleton.2 hnew)
    · intro m b hb
      rcases List.mem_append.1 hb with hb | hb
      · have hother : size s ≠ some m := by
          intro hm
          apply hnew
          rw [← honly hm]
          exact List.mem_map_of_mem hb
        rw [filter_concat_other hother]
        exact h.holds m b hb
      · cases List.mem_singleton.1 hb
        have hnone : slots.filter (fun s => size s = some n) = [] := by
          rw [List.filter_eq_nil_iff]
          intro v hv hvn
          exact hnew (h.covers v hv n (of_decide_eq_true hvn))
        simp [hnone, hs]
    · rw [List.map_append, List.forall_mem_append, List.forall_mem_singleton]
      constructor
      · intro v hv m hm
        exact List.mem_append_left _ (h.covers v hv m hm)
      · intro m hm
        rw [honly hm]
        exact List.mem_append_right _ (List.mem_singleton_self n)
  · have hsizes : (before ++ (n, b ++ [s]) :: after).map Prod.fst = bs.map Prod.fst := by
      rw [hbs, List.map_append, List.map_append, List.map_cons, List.map_cons]
    have hold : (n, b) ∈ bs := by
      rw [hbs]
      exact List.mem_append_right _ List.mem_cons_self
    rw [hadd]
    refine ⟨?_, ?_, ?_⟩
    · rw [hsizes]
      exact h.sizes
    · intro m d hd
      by_cases hgrown : (m, d) = (n, b ++ [s])
      · cases hgrown
        rw [h.holds n b hold]
        simp [hs]
      · obtain ⟨hne, hkept⟩ := mem_of_mem_changed (hbs ▸ h.sizes) hd hgrown
        rw [filter_concat_other fun hm => hne (honly hm)]
        exact h.holds m d (hbs ▸ hkept)
    · rw [hsizes, List.forall_mem_append, List.forall_mem_singleton]
      refine ⟨h.covers, ?_⟩
      intro m hm
      rw [honly hm]
      exact List.mem_map_of_mem hold

theorem bucketed_buckets (v : Files) (slots : List Slot) :
    Bucketed (fun s => v.size? s.path) slots (v.buckets slots) := by
  induction slots using List.reverseRecOn with
  | nil => exact ⟨List.nodup_nil, by simp [Files.buckets], by simp⟩
  | append_singleton done s ih =>
    unfold Files.buckets at ih ⊢
    rw [List.foldl_concat]
    cases hsize : v.size? s.path with
    | none => exact bucketed_unsized ih hsize
    | some n => exact bucketed_add ih hsize

/-- In whatever order the buckets come. -/
theorem Bucketed.perm (h : Bucketed size slots bs) {order : List (Nat × List Slot)} (horder : order.Perm bs) :
    Bucketed size slots order where
  sizes := (horder.map Prod.fst).nodup_iff.2 h.sizes
  holds n b hb := h.holds n b (horder.mem_iff.1 hb)
  covers s hs n hn := (horder.map Prod.fst).mem_iff.2 (h.covers s hs n hn)

/-- Whether of the slots of the same size as `s` one with its digest stands before it. -/
def Overtaken (size : Slot → Option Nat) (key : Slot → Option ByteArray) (slots : List Slot) (s : Slot) : Prop :=
  ∃ n k, size s = some n ∧ key s = some k ∧ ∃ w ∈ slots, size w = some n ∧ key w = some k ∧ w.Before s

/-- The losers of all buckets, each bucket having been compared on its own. -/
theorem mem_flatMap_lost (lost : List Slot → List Nat) (h : Bucketed size slots bs)
    (hslots : slots.Pairwise fun a b => a.position < b.position) (hlost : ∀ b i, (b.Pairwise fun a b => a.position < b.position) →
      (i ∈ lost b ↔ ∃ s ∈ b, s.position = i ∧ Beaten key b s)) (i : Nat) :
    (i ∈ bs.flatMap fun b => lost b.2) ↔ ∃ s ∈ slots, s.position = i ∧ Overtaken size key slots s := by
  rw [List.mem_flatMap]
  constructor
  · rintro ⟨⟨n, b⟩, hb, hi⟩
    obtain rfl := h.holds n b hb
    rw [hlost _ i (hslots.filter _)] at hi
    obtain ⟨s, hs, hposition, k, hsk, w, hw, hwk, hbefore⟩ := hi
    obtain ⟨hs, hsn⟩ := List.mem_filter.1 hs
    obtain ⟨hw, hwn⟩ := List.mem_filter.1 hw
    exact ⟨s, hs, hposition, n, k, of_decide_eq_true hsn, hsk, w, hw, of_decide_eq_true hwn, hwk, hbefore⟩
  · rintro ⟨s, hs, hposition, n, k, hsn, hsk, w, hw, hwn, hwk, hbefore⟩
    obtain ⟨⟨n', b⟩, hb, rfl⟩ := List.mem_map.1 (h.covers s hs n hsn)
    refine ⟨(n', b), hb, ?_⟩
    obtain rfl := h.holds n' b hb
    rw [hlost _ i (hslots.filter _)]
    exact ⟨s, List.mem_filter.2 ⟨hs, decide_eq_true hsn⟩, hposition, k, hsk, w,
      List.mem_filter.2 ⟨hw, decide_eq_true hwn⟩, hwk, hbefore⟩

end

/-! ## Files -/

/-- Whether files cannot be told apart by their sizes and digests. -/
def Twins (digest : Digest) (t : FileTree) (p q : Path) : Prop :=
  ∃ m, mark? digest t p = some m ∧ mark? digest t q = some m

/-- A slot is lost just where a twin stands before it. -/
theorem mem_lost_iff (i : Nat) :
    i ∈ ((buckets t (slotsOf paths)).flatMap fun b => losers digest t b.2) ↔
      ∃ s ∈ slotsOf paths, s.position = i ∧
        ∃ w ∈ slotsOf paths, Twins digest t w.path s.path ∧ w.Before s := by
  have hbuckets : Bucketed (fun s => size? t s.path) (slotsOf paths) (buckets t (slotsOf paths)) :=
    bucketed_buckets (.ofTree t) (slotsOf paths)
  rw [mem_flatMap_lost _ hbuckets (slotsOf_ascending paths) fun b i hb => mem_losers_iff hb i]
  constructor
  · rintro ⟨s, hs, hposition, n, k, hsn, hsk, w, hw, hwn, hwk, hbefore⟩
    exact ⟨s, hs, hposition, w, hw,
      ⟨(n, k), mark?_eq_some_iff.2 ⟨hwn, hwk⟩, mark?_eq_some_iff.2 ⟨hsn, hsk⟩⟩, hbefore⟩
  · rintro ⟨s, hs, hposition, w, hw, ⟨⟨n, k⟩, hwm, hsm⟩, hbefore⟩
    obtain ⟨hwn, hwk⟩ := mark?_eq_some_iff.1 hwm
    obtain ⟨hsn, hsk⟩ := mark?_eq_some_iff.1 hsm
    exact ⟨s, hs, hposition, n, k, hsn, hsk, w, hw, hwn, hwk, hbefore⟩

/-- The slots that stay are those before which no twin stands. -/
theorem mem_uniqueBy_iff {p : Path} :
    p ∈ uniqueBy digest t paths ↔ ∃ s ∈ slotsOf paths, s.path = p ∧
      ∀ w ∈ slotsOf paths, Twins digest t w.path s.path → ¬ w.Before s := by
  unfold uniqueBy
  simp only [List.mem_map, List.mem_filter, Bool.not_eq_true', List.contains_eq_mem, decide_eq_false_iff_not,
    mem_lost_iff]
  constructor
  · rintro ⟨s, ⟨hs, hkept⟩, rfl⟩
    refine ⟨s, hs, rfl, ?_⟩
    intro w hw htwins hbefore
    exact hkept ⟨s, hs, rfl, w, hw, htwins, hbefore⟩
  · rintro ⟨s, hs, rfl, hfirst⟩
    refine ⟨s, ⟨hs, ?_⟩, rfl⟩
    rintro ⟨v, hv, hsame, w, hw, htwins, hbefore⟩
    obtain rfl := eq_of_position hv hs hsame
    exact hfirst w hw htwins hbefore

theorem uniqueBy_sublist (digest : Digest) (t : FileTree) (paths : List Path) :
    (uniqueBy digest t paths).Sublist paths := by
  conv_rhs => rw [← slotsOf_paths paths]
  exact List.filter_sublist.map _

/-- Of each file that can be read a twin stays whose path is no greater. -/
theorem exists_twin (digest : Digest) {p : Path} (hp : p ∈ paths) {data : ByteArray} (hdata : t.read p = .ok data) :
    ∃ q ∈ uniqueBy digest t paths, Twins digest t q p ∧ (compare q p).isLE = true := by
  classical
  obtain ⟨i, hi⟩ := List.mem_iff_getElem?.1 hp
  have hself : Twins digest t p p := by
    have hmark : mark? digest t p = some (data.size, digest data) := by
      rw [mark?, hdata]
      rfl
    exact ⟨_, hmark, hmark⟩
  have hs : ⟨i, p⟩ ∈ (slotsOf paths).filter fun w => Twins digest t w.path p :=
    List.mem_filter.2 ⟨mem_slotsOf.2 hi, decide_eq_true hself⟩
  obtain ⟨w, hw, hfirst⟩ := exists_first (List.ne_nil_of_mem hs)
  obtain ⟨hw, htwins⟩ := List.mem_filter.1 hw
  obtain ⟨m, hwm, hpm⟩ := of_decide_eq_true htwins
  refine ⟨w.path, mem_uniqueBy_iff.2 ⟨w, hw, rfl, ?_⟩, ⟨m, hwm, hpm⟩, ?_⟩
  · rintro v hv ⟨m', hvm, hwm'⟩
    obtain rfl := Option.some.inj (hwm'.symm.trans hwm)
    exact hfirst v (List.mem_filter.2 ⟨hv, decide_eq_true ⟨m', hvm, hpm⟩⟩)
  · by_contra hgreater
    exact hfirst _ hs (Slot.before_of_path (Std.OrientedCmp.lt_of_not_isLE hgreater))

/-! ## Counting -/

theorem addToBucket_length (size : Nat) (s : Slot) (bs : List (Nat × List Slot)) :
    ((addToBucket size s bs).flatMap (·.2)).length = (bs.flatMap (·.2)).length + 1 := by
  induction bs with
  | nil => rfl
  | cons b rest ih =>
    obtain ⟨k, slots⟩ := b
    rw [addToBucket]
    split
    · simp only [List.flatMap_cons, List.length_append, List.length_singleton]
      omega
    · simp only [List.flatMap_cons, List.length_append, ih]
      omega

/-- Every slot is in a bucket or has no size. -/
theorem length_buckets (v : Files) (slots : List Slot) :
    (slots.filter fun s => (v.size? s.path).isNone).length + ((v.buckets slots).flatMap (·.2)).length =
      slots.length := by
  induction slots using List.reverseRecOn with
  | nil => rfl
  | append_singleton done s ih =>
    unfold Files.buckets at ih ⊢
    rw [List.foldl_concat, List.filter_append, List.length_append, List.length_append]
    cases hsize : v.size? s.path with
    | none =>
      rw [List.filter_cons_of_pos (by rw [hsize]; rfl), List.filter_nil]
      dsimp only
      rw [List.length_singleton]
      omega
    | some n =>
      rw [List.filter_cons_of_neg (by rw [hsize]; exact Bool.false_ne_true), List.filter_nil]
      dsimp only
      rw [addToBucket_length, List.length_singleton, List.length_nil]
      omega

theorem examined_eq (t : FileTree) (paths : List Path) : examined t paths = paths.length := by
  rw [← slotsOf_length paths]
  exact length_buckets (.ofTree t) (slotsOf paths)

end Copies

end FontCatalog
