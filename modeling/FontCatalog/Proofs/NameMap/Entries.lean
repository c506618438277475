import FontCatalog.NameMap
import Mathlib.Data.List.Sort
import Std.Data.TreeMap.Lemmas

/-! What a map of names holds after a list of faces has been entered: under each key that is not empty
the positions of all faces with a name of that key, in ascending order and each once, and the spelling
that was met first. Nothing is held under the empty key. -/
namespace FontCatalog
set_option autoImplicit false

/-! ## Positions in a list of faces -/

/-- The positions of the faces that pass `test`, in ascending order. -/
def positionsWhere (test : Face → Bool) (faces : List Face) : List Nat :=
  (faces.zipIdx.filter (test ·.1)).map (·.2)

theorem positionsWhere_pairwise (test : Face → Bool) (faces : List Face) :
    (positionsWhere test faces).Pairwise (· < ·) := by
  have hall : (faces.zipIdx.map (·.2)).Pairwise (· < ·) := by
    rw [List.zipIdx_map_snd]
    exact List.pairwise_lt_range'
  exact hall.sublist (List.filter_sublist.map _)

theorem mem_positionsWhere {test : Face → Bool} {faces : List Face} {i : Nat} :
    i ∈ positionsWhere test faces ↔ ∃ f, faces[i]? = some f ∧ test f = true := by
  constructor
  · intro h
    obtain ⟨⟨f, j⟩, hf, rfl⟩ := List.mem_map.mp h
    obtain ⟨hm, ht⟩ := List.mem_filter.mp hf
    exact ⟨f, List.mem_zipIdx_iff_getElem?.mp hm, ht⟩
  · rintro ⟨f, hf, ht⟩
    refine List.mem_map.mpr ⟨(f, i), List.mem_filter.mpr ⟨?_, ht⟩, rfl⟩
    exact List.mem_zipIdx_iff_getElem?.mpr hf

/-- The faces at these positions are the faces that pass the test. -/
theorem filterMap_positionsWhere (test : Face → Bool) (faces : List Face) :
    (positionsWhere test faces).filterMap (faces[·]?) = faces.filter test := by
  have hat : ∀ f ∈ faces.zipIdx.filter (test ·.1), faces[f.2]? = some f.1 := by
    intro f hf
    exact List.mem_zipIdx_iff_getElem?.mp (List.mem_filter.mp hf).1
  calc (positionsWhere test faces).filterMap (faces[·]?)
      = (faces.zipIdx.filter (test ·.1)).filterMap fun f => faces[f.2]? := List.filterMap_map ..
    _ = (faces.zipIdx.filter (test ·.1)).filterMap fun f => some f.1 := List.filterMap_congr hat
    _ = (faces.zipIdx.filter (test ·.1)).map (·.1) := by rw [List.filterMap_eq_map']
    _ = (faces.zipIdx.map (·.1)).filter test := by rw [List.filter_map]; rfl
    _ = faces.filter test := by rw [List.zipIdx_map_fst]

namespace NameMap

/-! ## One name -/

/-- The entry of a key after one more face of it: its position and its spelling of the name. -/
def enlist (e? : Option NameEntry) (b : Nat × String) : Option NameEntry :=
  match e? with
  | none => some ⟨b.2, [b.1]⟩
  | some e => some (e.add b.1)

/-- A second name of a face under one key changes nothing. -/
theorem enlist_again (e? : Option NameEntry) (p : Nat) (n n' : String) :
    enlist (enlist e? (p, n)) (p, n') = enlist e? (p, n) := by
  cases e? with
  | none => simp [enlist, NameEntry.add]
  | some e =>
    by_cases h : e.latest.head? = some p
    · simp [enlist, NameEntry.add, h]
    · simp [enlist, NameEntry.add, h]

section
variable {names : Face → List String} {key : String → String} {k : String}

theorem getElem?_enter (m : NameMap) (p : Nat) (n : String) (hk : k ≠ "") :
    (enter key p m n)[k]? = if key n = k then enlist m[k]? (p, n) else m[k]? := by
  unfold enter
  by_cases he : key n = ""
  · simp [he, Ne.symm hk]
  · rw [if_neg (by simpa using he)]
    by_cases h : key n = k
    · subst h
      rw [if_pos rfl, Std.TreeMap.getElem?_alter_self]
      cases m[key n]? <;> rfl
    · rw [if_neg h, Std.TreeMap.getElem?_alter, if_neg (by simpa using h)]

theorem getElem?_enter_empty (m : NameMap) (p : Nat) (n : String) :
    (enter key p m n)[""]? = m[""]? := by
  unfold enter
  by_cases he : key n = ""
  · simp [he]
  · rw [if_neg (by simpa using he), Std.TreeMap.getElem?_alter, if_neg (by simpa using he)]

/-! ## All names of a face -/

theorem getElem?_foldl_enter (m : NameMap) (p : Nat) (ns : List String) (hk : k ≠ "") :
    (ns.foldl (enter key p) m)[k]? =
      match ns.find? (key · == k) with
      | none => m[k]?
      | some n => enlist m[k]? (p, n) := by
  induction ns generalizing m with
  | nil => rfl
  | cons n ns ih =>
    rw [List.foldl_cons, ih, getElem?_enter m p n hk, List.find?_cons]
    by_cases h : key n = k
    · simp only [h, if_true, beq_self_eq_true]
      cases ns.find? (key · == k) with
      | none => rfl
      | some n' => exact enlist_again ..
    · have hb : (key n == k) = false := by simp [h]
      simp only [h, if_false, hb]

theorem getElem?_foldl_enter_empty (m : NameMap) (p : Nat) (ns : List String) :
    (ns.foldl (enter key p) m)[""]? = m[""]? := by
  induction ns generalizing m with
  | nil => rfl
  | cons n ns ih => rw [List.foldl_cons, ih, getElem?_enter_empty]

/-! ## All faces -/

/-- The faces with a name of the key `k`, the first of all faces being at `position`: their positions
and their first spellings of it. -/
def bearers (names : Face → List String) (key : String → String) (k : String) (position : Nat)
    (faces : List Face) : List (Nat × String) :=
  (faces.zipIdx position).filterMap fun f => ((names f.1).find? (key · == k)).map (f.2, ·)

theorem getElem?_enterAll (m : NameMap) (p : Nat) (faces : List Face) (hk : k ≠ "") :
    (enterAll names key m p faces)[k]? = (bearers names key k p faces).foldl enlist m[k]? := by
  induction faces generalizing m p with
  | nil => rfl
  | cons f faces ih =>
    rw [enterAll, ih, getElem?_foldl_enter m p (names f) hk]
    unfold bearers
    rw [List.zipIdx_cons, List.filterMap_cons]
    cases (names f).find? (key · == k) <;> rfl

theorem getElem?_ofFaces_empty (faces : List Face) : (ofFaces names key faces)[""]? = none := by
  have h : ∀ (m : NameMap) (p : Nat), (enterAll names key m p faces)[""]? = m[""]? := by
    induction faces with
    | nil => intro m p; rfl
    | cons f faces ih => intro m p; rw [enterAll, ih, getElem?_foldl_enter_empty]
  rw [ofFaces, h]
  rfl

/-- Later positions are put in front of those that an entry has. -/
theorem foldl_enlist_some (e : NameEntry) (bs : List (Nat × String))
    (hb : (bs.map (·.1)).Pairwise (· < ·)) (he : ∀ b ∈ bs, ∀ p ∈ e.latest, p < b.1) :
    bs.foldl enlist (some e) = some { e with latest := (bs.map (·.1)).reverse ++ e.latest } := by
  induction bs generalizing e with
  | nil => rfl
  | cons b bs ih =>
    rw [List.map_cons, List.pairwise_cons] at hb
    have hadd : e.add b.1 = { e with latest := b.1 :: e.latest } := by
      have hne : e.latest.head? ≠ some b.1 := by
        intro h
        exact (he b List.mem_cons_self b.1 (List.mem_of_head? h)).false
      simp [NameEntry.add, hne]
    rw [List.foldl_cons, enlist, hadd, ih _ hb.2, List.map_cons, List.reverse_cons]
    · simp
    · intro b' hb' p hp
      rcases List.mem_cons.mp hp with rfl | hp
      · exact hb.1 _ (List.mem_map_of_mem hb')
      · exact he b' (List.mem_cons_of_mem _ hb') p hp

theorem map_fst_bearers (faces : List Face) :
    (bearers names key k 0 faces).map (·.1) =
      positionsWhere (fun f => (names f).any (key · == k)) faces := by
  unfold bearers positionsWhere
  induction faces.zipIdx with
  | nil => rfl
  | cons f l ih =>
    rw [List.filterMap_cons, List.filter_cons]
    cases hf : (names f.1).find? (key · == k) with
    | none =>
      have ha : (names f.1).any (key · == k) = false := by
        rw [List.find?_eq_none] at hf
        simpa using hf
      simpa [ha] using ih
    | some n =>
      have ha : (names f.1).any (key · == k) = true :=
        List.any_eq_true.mpr ⟨n, List.mem_of_find?_eq_some hf, List.find?_some (p := (key · == k)) hf⟩
      simpa [ha] using ih

theorem map_snd_bearers_head (p : Nat) (faces : List Face) :
    ((bearers names key k p faces).map (·.2)).head? = (faces.flatMap names).find? (key · == k) := by
  induction faces generalizing p with
  | nil => rfl
  | cons f faces ih =>
    unfold bearers at ih ⊢
    rw [List.zipIdx_cons, List.filterMap_cons, List.flatMap_cons, List.find?_append, ← ih (p + 1)]
    cases (names f).find? (key · == k) <;> rfl

/-- The entry of a key: all faces that bear a name of it in ascending order, and the spelling of the
first of them. -/
theorem getElem?_ofFaces (faces : List Face) (hk : k ≠ "") :
    (ofFaces names key faces)[k]? =
      ((faces.flatMap names).find? (key · == k)).map fun n =>
        ⟨n, (positionsWhere (fun f => (names f).any (key · == k)) faces).reverse⟩ := by
  rw [ofFaces, getElem?_enterAll ∅ 0 faces hk, ← map_snd_bearers_head 0, ← map_fst_bearers]
  have hp : ((bearers names key k 0 faces).map (·.1)).Pairwise (· < ·) := by
    rw [map_fst_bearers]
    exact positionsWhere_pairwise ..
  cases hb : bearers names key k 0 faces with
  | nil => rfl
  | cons b bs =>
    rw [hb, List.map_cons, List.pairwise_cons] at hp
    have hlater : ∀ b' ∈ bs, ∀ p ∈ [b.1], p < b'.1 := by
      intro b' hb' p hm
      rw [List.mem_singleton.mp hm]
      exact hp.1 _ (List.mem_map_of_mem hb')
    calc (b :: bs).foldl enlist (∅ : NameMap)[k]?
        = bs.foldl enlist (some ⟨b.2, [b.1]⟩) := rfl
      _ = some ⟨b.2, (bs.map (·.1)).reverse ++ [b.1]⟩ := foldl_enlist_some _ bs hp.2 hlater
      _ = _ := by simp

/-- A name has a first spelling among the names of all faces. -/
theorem exists_spelling (key : String → String) {faces : List Face} {f : Face} (hf : f ∈ faces) {n : String} (hn : n ∈ names f) :
    ∃ d, (faces.flatMap names).find? (key · == key n) = some d ∧ key d = key n := by
  have hsome : ((faces.flatMap names).find? (key · == key n)).isSome = true := by
    rw [List.find?_isSome]
    exact ⟨n, List.mem_flatMap.2 ⟨f, hf, hn⟩, beq_self_eq_true _⟩
  obtain ⟨d, hd⟩ := Option.isSome_iff_exists.1 hsome
  exact ⟨d, hd, eq_of_beq (List.find?_some hd :)⟩

/-- What an entry that is there holds. -/
theorem entry_ofFaces {faces : List Face} {e : NameEntry} (h : (ofFaces names key faces)[k]? = some e) :
    k ≠ "" ∧ (faces.flatMap names).find? (key · == k) = some e.display ∧
      e.positions = positionsWhere (fun f => (names f).any (key · == k)) faces := by
  have hk : k ≠ "" := by
    rintro rfl
    rw [getElem?_ofFaces_empty] at h
    cases h
  rw [getElem?_ofFaces faces hk] at h
  obtain ⟨n, hn, rfl⟩ := Option.map_eq_some_iff.1 h
  exact ⟨hk, hn, List.reverse_reverse _⟩

theorem key_display {faces : List Face} {e : NameEntry} (h : (ofFaces names key faces)[k]? = some e) :
    key e.display = k := by
  have hfound := List.find?_some (entry_ofFaces h).2.1
  exact eq_of_beq hfound

end

end NameMap

end FontCatalog
