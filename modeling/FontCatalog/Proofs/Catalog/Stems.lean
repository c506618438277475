import FontCatalog.Proofs.Catalog.Families

/-! Looking up the families that begin with a stem. The faces are the same in whatever order a map hands out its
entries. The name is the first spelling of a family of the first face; it can depend on that order only where the
face is in more than one family of the stem. -/
namespace FontCatalog
set_option autoImplicit false

/-! ## Least positions -/

theorem head?_of_least {l : List Nat} (hl : l.Pairwise (· < ·)) {p : Nat} (hp : p ∈ l) (hleast : ∀ q ∈ l, p ≤ q) :
    l.head? = some p := by
  cases l with
  | nil => cases hp
  | cons q l =>
    rcases List.mem_cons.1 hp with rfl | hp
    · rfl
    · have hqp := (List.pairwise_cons.1 hl).1 p hp
      have hpq := hleast q List.mem_cons_self
      omega

namespace NameEntry

theorem first_mem {e : NameEntry} (h : e.positions ≠ []) : e.first ∈ e.positions := by
  unfold first
  cases hpositions : e.positions with
  | nil => exact absurd hpositions h
  | cons p rest => exact List.mem_cons_self

theorem first_le {e : NameEntry} (h : e.positions.Pairwise (· < ·)) {p : Nat} (hp : p ∈ e.positions) :
    e.first ≤ p := by
  unfold first
  cases hpositions : e.positions with
  | nil =>
    rw [hpositions] at hp
    cases hp
  | cons q rest =>
    rw [hpositions] at h hp
    rcases List.mem_cons.1 hp with rfl | hp
    · exact Nat.le_refl p
    · exact Nat.le_of_lt ((List.pairwise_cons.1 h).1 p hp)

end NameEntry

namespace Name

/-- Whether a name is of a family that begins with the stem. -/
def Begins (stem name : String) : Prop :=
  exactKey name ≠ "" ∧ (exactKey stem).toList <+: (exactKey name).toList

instance (stem name : String) : Decidable (Begins stem name) :=
  inferInstanceAs (Decidable (_ ∧ _))

end Name

/-! ## The first of the entries -/

namespace Catalog

section
variable {names : Face → List String} {key : String → String} {faces : List Face}
  {entries : List (String × NameEntry)} {stem : String} {e : NameEntry}

theorem first_mem_positions {k : String} (h : (NameMap.ofFaces names key faces)[k]? = some e) :
    e.first ∈ positionsWhere (fun f => (names f).any (key · == k)) faces := by
  obtain ⟨-, hfound, hpositions⟩ := NameMap.entry_ofFaces h
  obtain ⟨f, hf, hd⟩ := List.mem_flatMap.1 (List.mem_of_find?_eq_some hfound)
  obtain ⟨i, hi⟩ := List.mem_iff_getElem?.1 hf
  rw [← hpositions]
  refine NameEntry.first_mem (List.ne_nil_of_mem (a := i) ?_)
  rw [hpositions, mem_positionsWhere]
  exact ⟨f, hi, List.any_eq_true.2 ⟨_, hd, List.find?_some (p := (key · == k)) hfound⟩⟩

variable (h : entries.Perm (NameMap.ofFaces names key faces).toList)
include h

/-- No face of a stem stands before the first face of the entry in front. -/
theorem first_le_of_starting {rest : List NameEntry} (hits : startingAmong stem entries = e :: rest) {p : Nat}
    (hp : p ∈ (startingAmong stem entries).flatMap NameEntry.positions) : e.first ≤ p := by
  have hsorted : (startingAmong stem entries).Pairwise fun a b => decide (a.first ≤ b.first) = true := by
    refine List.pairwise_mergeSort (fun a b c hab hbc => ?_) (fun a b => ?_) _
    · exact decide_eq_true (Nat.le_trans (of_decide_eq_true hab) (of_decide_eq_true hbc))
    · simpa using Nat.le_total a.first b.first
  obtain ⟨e', he', hp⟩ := List.mem_flatMap.1 hp
  obtain ⟨k, hentry, -⟩ := (mem_startingAmong h).1 he'
  have hle : e.first ≤ e'.first := by
    rw [hits] at he'
    rcases List.mem_cons.1 he' with rfl | he'
    · exact Nat.le_refl _
    · rw [hits] at hsorted
      exact of_decide_eq_true ((List.pairwise_cons.1 hsorted).1 e' he')
  refine hle.trans (NameEntry.first_le ?_ hp)
  rw [(NameMap.entry_ofFaces hentry).2.2]
  exact positionsWhere_pairwise ..

/-- The face in front is in the family whose name the group bears. -/
theorem groupOfEntries_cases (stem : String) :
    (ofArranged faces).groupOfEntries stem entries = {} ∨
    ∃ f n, ((ofArranged faces).groupOfEntries stem entries).faces.head? = some f ∧ n ∈ names f ∧ key n ≠ "" ∧
      stem.toList <+: (key n).toList ∧
      (faces.flatMap names).find? (key · == key n) = some ((ofArranged faces).groupOfEntries stem entries).name := by
  cases hits : startingAmong stem entries with
  | nil =>
    left
    rw [groupOfEntries, hits]
  | cons e rest =>
    right
    have he : e ∈ startingAmong stem entries := by
      rw [hits]
      exact List.mem_cons_self
    obtain ⟨k, hentry, hprefix⟩ := (mem_startingAmong h).1 he
    obtain ⟨hk, hfound, hpositions⟩ := NameMap.entry_ofFaces hentry
    have hfirst := first_mem_positions hentry
    obtain ⟨f, hf, hborn⟩ := mem_positionsWhere.1 hfirst
    obtain ⟨n, hn, hkey⟩ := List.any_eq_true.1 hborn
    have hkey : key n = k := eq_of_beq hkey
    -- Nothing in the merged positions stands before the first of these.
    have hmerged : e.first ∈ (startingAmong stem entries).flatMap NameEntry.positions :=
      List.mem_flatMap.2 ⟨e, he, hpositions ▸ hfirst⟩
    have hhead := head?_of_least (positionsWhere_pairwise ..) ((mem_positions_startingAmong h stem _).1 hmerged)
      fun p hp => first_le_of_starting h hits ((mem_positions_startingAmong h stem p).2 hp)
    refine ⟨f, n, ?_, hn, hkey ▸ hk, List.isPrefixOf_iff_prefix.1 (hkey ▸ hprefix), ?_⟩
    · rw [faces_groupOfEntries h, ← filterMap_positionsWhere]
      obtain ⟨others, hothers⟩ := List.head?_eq_some_iff.1 hhead
      rw [hothers, List.filterMap_cons_some hf]
      rfl
    · have hname : ((ofArranged faces).groupOfEntries stem entries).name = e.display := by
        rw [groupOfEntries, hits]
      rw [hkey, hfound, hname]

end

end Catalog

/-! ## Both kinds of families -/

namespace FamilyKind

/-- The group of the families that begin with a stem. -/
def stem (c : Catalog) : FamilyKind → String → FaceGroup
  | .typographic => c.typographicStem
  | .win32 => c.win32Stem

theorem stem_eq (c : Catalog) (k : FamilyKind) (start : String) :
    k.stem c start = c.groupOfEntries (Name.exactKey start) (k.maps c).exact.toList := by
  cases k <;> rfl

/-- Whether a group is that of all families of a stem. -/
structure Merges (k : FamilyKind) (records : List Face) (stem : String) (g : FaceGroup) : Prop where
  faces : g.faces = records.filter fun f => ∃ n ∈ k.names f, Name.Begins stem n
  empty : g.faces = [] → g = {}
  /-- The name is the first spelling of a family of the first face. -/
  name : ∀ f, g.faces.head? = some f → ∃ n ∈ k.names f, Name.Begins stem n ∧
    (records.flatMap k.names).find? (Name.exactKey · = Name.exactKey n) = some g.name

/-- Whether all names of a face that begin with the stem are of one family. -/
def OneFamily (k : FamilyKind) (stem : String) (f : Face) : Prop :=
  ∀ n ∈ k.names f, ∀ n' ∈ k.names f, Name.Begins stem n → Name.Begins stem n' → Name.exactKey n = Name.exactKey n'

/-- Only the families of the first face leave a choice. -/
theorem Merges.unique {k : FamilyKind} {records : List Face} {stem : String} {g g' : FaceGroup}
    (h : k.Merges records stem g) (h' : k.Merges records stem g') (hone : ∀ f, g.faces.head? = some f → k.OneFamily stem f) :
    g = g' := by
  have hfaces : g.faces = g'.faces := h.faces.trans h'.faces.symm
  cases hhead : g.faces.head? with
  | none =>
    rw [List.head?_eq_none_iff] at hhead
    rw [h.empty hhead, h'.empty (hfaces ▸ hhead)]
  | some f =>
    obtain ⟨n, hn, hbegins, hname⟩ := h.name f hhead
    obtain ⟨n', hn', hbegins', hname'⟩ := h'.name f (hfaces ▸ hhead)
    rw [hone f hhead n hn n' hn' hbegins hbegins', hname'] at hname
    cases g
    cases g'
    rw [FaceGroup.mk.injEq]
    exact ⟨(Option.some.inj hname).symm, hfaces⟩

theorem merges_groupOfEntries {k : FamilyKind} (faces : List Face) {order : List (String × NameEntry)}
    (h : order.Perm (k.maps (.ofArranged faces)).exact.toList) (stem : String) :
    k.Merges faces stem ((Catalog.ofArranged faces).groupOfEntries (Name.exactKey stem) order) := by
  rw [maps_ofArranged] at h
  have h : order.Perm (NameMap.ofFaces k.names Name.exactKey faces).toList := h
  have hname := Catalog.groupOfEntries_cases h (Name.exactKey stem)
  refine ⟨?_, fun hempty => ?_, fun f hf => ?_⟩
  · rw [Catalog.faces_groupOfEntries h]
    refine List.filter_congr fun f _ => ?_
    rw [Bool.eq_iff_iff, List.any_eq_true, decide_eq_true_iff]
    refine exists_congr fun n => and_congr_right fun _ => ?_
    simp [Name.Begins]
  · obtain hname | ⟨f, n, hhead, -⟩ := hname
    · exact hname
    · rw [hempty] at hhead
      cases hhead
  · obtain hname | ⟨f', n, hhead, hn, hkey, hprefix, hfound⟩ := hname
    · rw [hname] at hf
      cases hf
    · obtain rfl := Option.some.inj (hhead.symm.trans hf)
      exact ⟨n, hn, ⟨hkey, hprefix⟩, hfound⟩

end FamilyKind

namespace Catalog

/-- What is found for the beginning of a name, in whatever order the entries come out of the map. -/
theorem stem_merges (faces : List Face) (k : FamilyKind) (stem : String) :
    let c := build faces
    let entries := (k.maps c).exact.toList
    Ascending c.faces.toList ∧ k.stem c stem = c.groupOfEntries (Name.exactKey stem) entries ∧
    ∀ order, order.Perm entries →
      let g := c.groupOfEntries (Name.exactKey stem) order
      k.Merges c.faces.toList stem g ∧
      ((∀ f, g.faces.head? = some f → k.OneFamily stem f) → g = k.stem c stem) := by
  intro c entries
  have hmerges : ∀ order, order.Perm entries →
      k.Merges c.faces.toList stem (c.groupOfEntries (Name.exactKey stem) order) :=
    fun order horder => FamilyKind.merges_groupOfEntries (arrange faces) horder stem
  refine ⟨arrange_ascending faces, FamilyKind.stem_eq c k stem, fun order horder => ⟨hmerges order horder, fun hone => ?_⟩⟩
  rw [FamilyKind.stem_eq]
  exact (hmerges order horder).unique (hmerges entries (.refl _)) hone

def alphaFace : Face := { typographicFamilies := [{ name := "Long Alpha" }], path := .ofString "/f/a.ttf", index := 0 }

/-- A face of the same family and of one more. -/
def betaFace : Face :=
  { typographicFamilies := [{ name := "LONG ALPHA" }, { name := "Long Beta" }], path := .ofString "/f/b.ttf", index := 0 }

theorem stem_merges_backwards :
    let c := build [alphaFace, betaFace]
    c.groupOfEntries (Name.exactKey "long") c.typographic.exact.toList.reverse = c.typographicStem "long" ∧
      (c.typographicStem "long").faces = [alphaFace, betaFace] := by
  intro c
  have harranged : arrange [alphaFace, betaFace] = [alphaFace, betaFace] :=
    arrange_of_ascending _ (by unfold Ascending; decide +kernel)
  obtain ⟨-, -, hmerges⟩ := stem_merges [alphaFace, betaFace] .typographic "long"
  obtain ⟨hgroup, hsame⟩ := hmerges _ (List.reverse_perm _)
  have hfaces := hgroup.faces
  rw [show (build [alphaFace, betaFace]).faces.toList = [alphaFace, betaFace] from harranged,
    show List.filter _ _ = [alphaFace, betaFace] by decide +kernel] at hfaces
  have hbackwards := hsame fun f hf => by
    rw [hfaces] at hf
    obtain rfl := Option.some.inj hf
    intro n hn n' hn' _ _
    rw [List.mem_singleton.1 hn, List.mem_singleton.1 hn']
  refine ⟨hbackwards, ?_⟩
  rw [← show _ = c.typographicStem "long" from hbackwards]
  exact hfaces

end Catalog

end FontCatalog
