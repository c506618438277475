import FontCatalog.Catalog.Summary
import FontCatalog.Proofs.Catalog.Lookups
import FontCatalog.Proofs.FileTree.Spelling
import FontCatalog.Proofs.Name.Keys
import FontCatalog.Proofs.NameMap.Displays

/-! The families that a catalog lists, and what its summary counts. Families are counted by the names that are listed, of
which there is one for each key. Files are counted by the changes of the path, which is right because the faces of one
file stand together. -/
namespace FontCatalog
set_option autoImplicit false

/-! ## Kinds of families -/

inductive FamilyKind where
  | typographic
  | win32
  deriving DecidableEq, Repr

namespace FamilyKind

/-- The family names of a face. -/
def names : FamilyKind → Face → List String
  | .typographic => Face.typographicNames
  | .win32 => Face.win32Names

def maps (c : Catalog) : FamilyKind → FamilyMaps
  | .typographic => c.typographic
  | .win32 => c.win32

def lookup : FamilyKind → Lookup
  | .typographic => .typographic
  | .win32 => .win32

def families (c : Catalog) : FamilyKind → List String
  | .typographic => c.typographicFamilies
  | .win32 => c.win32Families

theorem maps_ofArranged (faces : List Face) (k : FamilyKind) :
    k.maps (.ofArranged faces) = Catalog.familyMaps k.names faces := by
  cases k <;> rfl

theorem families_ofArranged (faces : List Face) (k : FamilyKind) :
    k.families (.ofArranged faces) = (NameMap.ofFaces k.names Name.familyKey faces).displays := by
  cases k <;> rfl

theorem lookup_names (k : FamilyKind) : k.lookup.names = k.names := by
  cases k <;> rfl

theorem lookup_key (k : FamilyKind) : k.lookup.key = Name.familyKey := by
  cases k <;> rfl

/-- The different keys of the family names of these faces, without the empty one. -/
def keys (k : FamilyKind) (faces : List Face) : Finset String :=
  ((faces.flatMap k.names).map Name.familyKey).toFinset.erase ""

/-- The group of a listed name bears that name. -/
theorem run_of_mem_families {faces : List Face} {k : FamilyKind} {d : String}
    (hd : d ∈ k.families (.ofArranged faces)) :
    (k.lookup.run (.ofArranged faces) d).faces ≠ [] ∧ (k.lookup.run (.ofArranged faces) d).name = d := by
  rw [families_ofArranged, NameMap.mem_displays] at hd
  obtain ⟨hkey, hfound⟩ := hd
  obtain ⟨f, hf, hd⟩ := List.mem_flatMap.1 (List.mem_of_find?_eq_some hfound)
  rw [Lookup.run_ofArranged, Lookup.search, lookup_names, lookup_key, if_neg hkey]
  refine ⟨List.ne_nil_of_mem (List.mem_filter.2 ⟨hf, decide_eq_true ⟨d, hd, rfl⟩⟩), ?_⟩
  exact congrArg (Option.getD · "") hfound

end FamilyKind

/-! ## Files -/

namespace Catalog

theorem path_isLE_of_ascending {f : Face} {faces : List Face} (h : Ascending (f :: faces)) {g : Face}
    (hg : g ∈ faces) : (compare f.path.key g.path.key).isLE = true := by
  have hlt : (compare f.path.key g.path.key).then (compare f.index g.index) = .lt := (List.pairwise_cons.1 h).1 g hg
  cases hpaths : compare f.path.key g.path.key with
  | lt => rfl
  | eq => rfl
  | gt => simp [hpaths] at hlt

/-- No later face is of the file of the first one, if the next one is not. -/
theorem path_ne_of_ascending {f g : Face} {faces : List Face} (h : Ascending (f :: g :: faces))
    (hnext : f.path.same g.path = false) {e : Face} (he : e ∈ g :: faces) : e.path.components ≠ f.path.components := by
  intro hsame
  -- Such a face would hold the next one between itself and the first one.
  have hgf : (compare g.path.key f.path.key).isLE = true := by
    rw [Path.key, Path.key, ← hsame]
    rcases List.mem_cons.1 he with rfl | he
    · exact Std.ReflCmp.isLE_rfl
    · exact path_isLE_of_ascending (List.pairwise_cons.1 h).2 he
  have hfg := path_isLE_of_ascending h (List.mem_cons_self (a := g))
  have hkey : f.path.key = g.path.key := Std.LawfulEqCmp.eq_of_compare (Std.OrientedCmp.isLE_antisymm hfg hgf)
  rw [Path.same, hkey, beq_self_eq_true] at hnext
  cases hnext

theorem countFiles_eq {faces : List Face} (h : Ascending faces) :
    countFiles faces = (faces.map (·.path.components)).toFinset.card := by
  induction faces with
  | nil => rfl
  | cons f faces ih =>
    cases faces with
    | nil => rfl
    | cons g faces =>
      rw [countFiles, ih (List.pairwise_cons.1 h).2, List.map_cons (l := g :: faces), List.toFinset_cons]
      cases hnext : f.path.same g.path with
      | true =>
        have hmem : f.path.components ∈ ((g :: faces).map (·.path.components)).toFinset := by
          rw [Path.components_eq_of_same hnext, List.map_cons, List.toFinset_cons]
          exact Finset.mem_insert_self _ _
        rw [Finset.insert_eq_of_mem hmem, if_pos rfl, Nat.zero_add]
      | false =>
        have hnew : f.path.components ∉ ((g :: faces).map (·.path.components)).toFinset := by
          rw [List.mem_toFinset, List.mem_map]
          rintro ⟨e, he, hsame⟩
          exact path_ne_of_ascending h hnext he hsame
        rw [Finset.card_insert_of_notMem hnew, if_neg Bool.false_ne_true, Nat.add_comm]

/-! ## What is listed and counted -/

/-- The families of a catalog stand in strict order, each under the name of its group and each key once. The summary
counts the keys of the families and the paths of the files. -/
theorem families_of_build (faces : List Face) :
    let c := build faces
    let records := c.faces.toList
    (∀ k : FamilyKind, (k.families c).Pairwise (· < ·) ∧
      (∀ d ∈ k.families c, (k.lookup.run c d).faces ≠ [] ∧ (k.lookup.run c d).name = d) ∧
      ∀ f ∈ records, ∀ n ∈ k.names f, Text.isBlankText n = false →
        ∃! d, d ∈ k.families c ∧ Name.familyKey d = Name.familyKey n) ∧
    c.summary.typographicFamilies = (FamilyKind.typographic.keys records).card ∧
    c.summary.win32Families = (FamilyKind.win32.keys records).card ∧
    c.summary.files = (records.map (·.path.components)).toFinset.card := by
  intro c records
  refine ⟨fun k => ⟨?_, fun d => FamilyKind.run_of_mem_families, ?_⟩, NameMap.length_displays .., NameMap.length_displays ..,
    countFiles_eq (arrange_ascending faces)⟩
  · rw [show c = ofArranged (arrange faces) from rfl, FamilyKind.families_ofArranged]
    exact NameMap.displays_pairwise_lt ..
  · intro f hf n hn hblank
    rw [show c = ofArranged (arrange faces) from rfl, FamilyKind.families_ofArranged]
    obtain ⟨d, hd, hkey⟩ := NameMap.exists_mem_displays hf hn (Name.familyKey_ne_empty hblank)
    refine ⟨d, ⟨hd, hkey⟩, fun d' ⟨hd', hkey'⟩ => ?_⟩
    exact List.inj_on_of_nodup_map (NameMap.nodup_map_key_displays ..) hd' hd (hkey'.trans hkey.symm)

/-- Two faces of one file and one family, and a face without a family. -/
def shelf : List Face :=
  [{ win32Family := "Foo", path := .ofString "/f/a.ttc", index := 0 },
    { win32Family := " FOO ", path := .ofString "/f//a.ttc", index := 1 },
    { win32Family := "\t", path := .ofString "/f/b.ttf", index := 0 }]

theorem families_of_build_shelf :
    (FamilyKind.win32.lookup.run (build shelf) "Foo").name = "Foo" ∧
      (∃! d, d ∈ FamilyKind.win32.families (build shelf) ∧ Name.familyKey d = Name.familyKey " FOO ") ∧
      (build shelf).summary.win32Families = 1 ∧ (build shelf).summary.files = 2 := by
  have harranged : arrange shelf = shelf := arrange_of_ascending shelf (by unfold Ascending; decide +kernel)
  have hbuild : build shelf = ofArranged shelf := congrArg ofArranged harranged
  have hlisted : "Foo" ∈ FamilyKind.win32.families (build shelf) := by
    rw [hbuild, FamilyKind.families_ofArranged, NameMap.mem_displays]
    decide +kernel
  obtain ⟨hkinds, -, hfamilies, hfiles⟩ := families_of_build shelf
  obtain ⟨-, hgroup, hcovered⟩ := hkinds .win32
  refine ⟨(hgroup "Foo" hlisted).2, hcovered { win32Family := " FOO ", path := .ofString "/f//a.ttc", index := 1 } ?_ _
    (List.mem_singleton.2 rfl) (by decide), ?_, ?_⟩
  · rw [hbuild]
    decide
  · rw [hfamilies, hbuild]
    decide +kernel
  · rw [hfiles, hbuild]
    decide +kernel

end Catalog

end FontCatalog
