import FontCatalog.Proofs.Catalog.Groups
import FontCatalog.Proofs.Catalog.Order

/-! The lookups of a catalog. There are eight: each goes by a kind of names and by a key. A catalog of
any faces holds them in ascending order, of each identity the first; a lookup gives the faces that bear
a name of the wanted key, and its map holds no position without a face. -/
namespace FontCatalog
set_option autoImplicit false

inductive Lookup where
  | typographic
  | win32
  | typographicExact
  | win32Exact
  | typographicLoose
  | win32Loose
  | fullName
  | postscriptName
  deriving DecidableEq, Repr

namespace Lookup

/-- The names of a face that count. -/
def names : Lookup → Face → List String
  | .typographic | .typographicExact | .typographicLoose => Face.typographicNames
  | .win32 | .win32Exact | .win32Loose => Face.win32Names
  | .fullName => Face.fullNames
  | .postscriptName => Face.postscriptNames

/-- How names are compared. -/
def key : Lookup → String → String
  | .typographic | .win32 | .fullName | .postscriptName => Name.familyKey
  | .typographicExact | .win32Exact => Name.exactKey
  | .typographicLoose | .win32Loose => Name.looseKey

def map (c : Catalog) : Lookup → NameMap
  | .typographic => c.typographic.family
  | .win32 => c.win32.family
  | .typographicExact => c.typographic.exact
  | .win32Exact => c.win32.exact
  | .typographicLoose => c.typographic.loose
  | .win32Loose => c.win32.loose
  | .fullName => c.fullNames
  | .postscriptName => c.postscriptNames

def run (c : Catalog) : Lookup → String → FaceGroup
  | .typographic => c.lookupTypographic
  | .win32 => c.lookupWin32
  | .typographicExact => c.typographicExact
  | .win32Exact => c.win32Exact
  | .typographicLoose => c.typographicLoose
  | .win32Loose => c.win32Loose
  | .fullName => c.lookupFullName
  | .postscriptName => c.lookupPostscriptName

/-- The same by going through the faces: those with a name of the wanted key, under the first such
name. An empty key has no faces. -/
def search (l : Lookup) (name : String) (faces : List Face) : FaceGroup :=
  if l.key name = "" then {}
  else
    { name := ((faces.flatMap l.names).find? fun n => l.key n = l.key name).getD ""
      faces := faces.filter fun f => ∃ n ∈ l.names f, l.key n = l.key name }

theorem run_eq (c : Catalog) (l : Lookup) (name : String) :
    l.run c name = c.group (l.map c) (l.key name) := by
  cases l <;> rfl

theorem map_ofArranged (faces : List Face) (l : Lookup) :
    l.map (.ofArranged faces) = .ofFaces l.names l.key faces := by
  cases l <;> rfl

theorem run_ofArranged (faces : List Face) (l : Lookup) (name : String) :
    l.run (.ofArranged faces) name = l.search name faces := by
  rw [run_eq, map_ofArranged, search]
  by_cases hkey : l.key name = ""
  · rw [if_pos hkey, hkey]
    exact Catalog.group_ofFaces_empty faces
  · rw [if_neg hkey, Catalog.group_ofFaces faces hkey]
    congr 1
    apply List.filter_congr
    intro f _
    rw [Bool.eq_iff_iff]
    simp

/-- The faces that are found stand in the order of the catalog. -/
theorem search_sublist (l : Lookup) (name : String) (faces : List Face) :
    (l.search name faces).faces.Sublist faces := by
  unfold search
  split
  · exact List.nil_sublist _
  · exact List.filter_sublist

/-- A group that is not empty bears the first name of the wanted key. -/
theorem search_name {l : Lookup} {name : String} {faces : List Face} (h : (l.search name faces).faces ≠ []) :
    l.key name ≠ "" ∧ ∃ f ∈ faces, ∃ n ∈ l.names f,
      l.key n = l.key name ∧ (l.search name faces).name = n := by
  unfold search at h ⊢
  by_cases hkey : l.key name = ""
  · rw [if_pos hkey] at h
    exact absurd rfl h
  rw [if_neg hkey] at h ⊢
  refine ⟨hkey, ?_⟩
  obtain ⟨g, hg⟩ := List.exists_mem_of_ne_nil _ h
  obtain ⟨hg, hborn⟩ := List.mem_filter.1 hg
  obtain ⟨m, hm, hmkey⟩ := of_decide_eq_true hborn
  have hsome : ((faces.flatMap l.names).find? fun n => l.key n = l.key name).isSome = true := by
    rw [List.find?_isSome]
    exact ⟨m, List.mem_flatMap.2 ⟨g, hg, hm⟩, decide_eq_true hmkey⟩
  obtain ⟨n, hn⟩ := Option.isSome_iff_exists.1 hsome
  obtain ⟨f, hf, hnf⟩ := List.mem_flatMap.1 (List.mem_of_find?_eq_some hn)
  have hnkey : l.key n = l.key name := by simpa using List.find?_some hn
  refine ⟨f, hf, n, hnf, hnkey, ?_⟩
  rw [hn, Option.getD_some]

/-- Every position in a map is that of a face. -/
theorem positions_lt {faces : List Face} {l : Lookup} {key : String} {e : NameEntry}
    (h : (l.map (.ofArranged faces))[key]? = some e) {p : Nat} (hp : p ∈ e.positions) :
    p < faces.length := by
  rw [map_ofArranged] at h
  obtain ⟨-, -, hpositions⟩ := NameMap.entry_ofFaces h
  rw [hpositions] at hp
  obtain ⟨f, hf, -⟩ := mem_positionsWhere.1 hp
  exact (List.getElem?_eq_some_iff.1 hf).1

end Lookup

namespace Catalog

/-- What a catalog of any faces holds, and what its lookups give. -/
theorem build_holds (faces : List Face) :
    Ascending (build faces).faces.toList ∧
    (∀ i : FaceId,
      (build faces).faces.toList.find? (·.id.same i) = faces.find? (·.id.same i)) ∧
    (∀ (l : Lookup) (name : String),
      l.run (build faces) name = l.search name (build faces).faces.toList ∧
        Ascending (l.run (build faces) name).faces) ∧
    ∀ (l : Lookup) (key : String),
      ((l.map (build faces))[key]?.all fun e => e.positions.all (· < (build faces).size)) = true := by
  have hascending : Ascending (build faces).faces.toList := arrange_ascending faces
  refine ⟨hascending, fun i => find?_arrange i faces, fun l name => ?_, fun l key => ?_⟩
  · have hrun : l.run (build faces) name = l.search name (build faces).faces.toList :=
      l.run_ofArranged (arrange faces) name
    rw [hrun]
    exact ⟨rfl, hascending.sublist (l.search_sublist name _)⟩
  · cases hentry : (l.map (build faces))[key]? with
    | none => rfl
    | some e =>
      have hpositions : ∀ p ∈ e.positions, p < (build faces).size := by
        intro p hp
        exact Lookup.positions_lt hentry hp
      simpa using hpositions

end Catalog

end FontCatalog
