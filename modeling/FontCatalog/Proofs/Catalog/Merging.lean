import FontCatalog.Proofs.Catalog.Order
import Mathlib.Data.List.Sort

/-! Catalogs put together. A catalog is known by the face that it has for each identity, and a merge has that
of the earliest catalog that has one; so merging is a union in which the left side wins, and it does not matter
in which groups catalogs are merged. -/
namespace FontCatalog.Catalog
set_option autoImplicit false

variable {F G : List Face}

/-! ## Faces by identity -/

theorem Ascending.mem_iff_find? (h : Ascending F) (f : Face) :
    f ∈ F ↔ F.find? (·.id.same f.id) = some f := by
  have hself : f ∈ F ↔ f ∈ F.filter (·.id.same f.id) := by
    rw [List.mem_filter, and_iff_left f.id.same_refl]
  rw [hself, h.filter_same, Option.mem_toList]

/-- Faces in ascending order are known by the face that each identity has. -/
theorem Ascending.eq_of_find? (hF : Ascending F) (hG : Ascending G)
    (h : ∀ i, F.find? (·.id.same i) = G.find? (·.id.same i)) : F = G := by
  have : Std.Irrefl fun f g : Face => compare f.id g.id = .lt :=
    ⟨fun f hf => by rw [(FaceId.same_iff ..).1 f.id.same_refl] at hf; cases hf⟩
  have : Std.Antisymm fun f g : Face => compare f.id g.id = .lt :=
    ⟨fun f g hfg hgf => by rw [Std.OrientedCmp.gt_of_lt hfg] at hgf; cases hgf⟩
  unfold Ascending at *
  refine hF.eq_of_mem_iff hG fun f => ?_
  rw [Ascending.mem_iff_find? hF, Ascending.mem_iff_find? hG, h]

theorem find?_build (faces : List Face) (i : FaceId) :
    (build faces).faces.toList.find? (·.id.same i) = faces.find? (·.id.same i) :=
  find?_arrange i faces

theorem build_congr (h : ∀ i, F.find? (·.id.same i) = G.find? (·.id.same i)) : build F = build G := by
  have harranged : arrange F = arrange G := by
    refine (arrange_ascending F).eq_of_find? (arrange_ascending G) fun i => ?_
    rw [find?_arrange, find?_arrange, h]
  rw [build, build, harranged]

/-! ## Merges -/

/-- The face that the earliest of some catalogs has for an identity. -/
def earliest (i : FaceId) (cs : List Catalog) : Option Face :=
  cs.findSome? fun c => c.faces.toList.find? (·.id.same i)

theorem earliest_append (i : FaceId) (cs ds : List Catalog) :
    earliest i (cs ++ ds) = (earliest i cs).or (earliest i ds) := List.findSome?_append

theorem find?_flatMap_faces (cs : List Catalog) (i : FaceId) :
    (cs.flatMap (·.faces.toList)).find? (·.id.same i) = earliest i cs := List.find?_flatMap

theorem find?_merge (cs : List Catalog) (i : FaceId) :
    (merge cs).faces.toList.find? (·.id.same i) = earliest i cs := by
  rw [merge, find?_build, find?_flatMap_faces]

theorem merge_congr {cs ds : List Catalog} (h : ∀ i, earliest i cs = earliest i ds) : merge cs = merge ds := by
  refine build_congr fun i => ?_
  rw [find?_flatMap_faces, find?_flatMap_faces, h]

theorem earliest_map_merge (i : FaceId) (groups : List (List Catalog)) :
    earliest i (groups.map merge) = earliest i groups.flatten := by
  induction groups with
  | nil => rfl
  | cons cs groups ih =>
    have hfirst : earliest i [merge cs] = earliest i cs := by
      rw [earliest, List.findSome?_singleton, find?_merge]
    rw [List.map_cons, List.flatten_cons, earliest_append, ← ih, ← hfirst, ← earliest_append]
    rfl

/-- Catalogs may be merged in groups. -/
theorem merge_map_merge (groups : List (List Catalog)) : merge (groups.map merge) = merge groups.flatten :=
  merge_congr fun i => earliest_map_merge i groups

theorem merge_nil : merge [] = {} := by
  show ofArranged (arrange []) = {}
  rw [arrange_of_ascending [] .nil]
  rfl

theorem merge_build (faces : List Face) : merge [build faces] = build faces := by
  rw [merge, List.flatMap_singleton, build_faces]

theorem merge_twice (c : Catalog) : merge [c, c] = merge [c] := by
  refine merge_congr fun i => ?_
  rw [← List.singleton_append, earliest_append, Option.or_self]

theorem exists_merge_iff (cs : List Catalog) (i : FaceId) :
    (∃ f ∈ (merge cs).faces.toList, f.id.same i = true) ↔
      ∃ c ∈ cs, ∃ f ∈ c.faces.toList, f.id.same i = true := by
  rw [← List.find?_isSome, find?_merge, earliest, List.findSome?_isSome_iff]
  simp only [List.find?_isSome]

/-- A catalog is rebuilt from its own faces in any order. -/
theorem build_of_perm (h : G.Perm (build F).faces.toList) : build G = build F := by
  rw [← build_faces F]
  refine build_congr fun i => ?_
  have hsame : G.filter (·.id.same i) = (build F).faces.toList.filter (·.id.same i) := by
    have hperm := h.filter (·.id.same i)
    rw [build_filter_same] at hperm ⊢
    generalize F.find? (·.id.same i) = first at hperm ⊢
    cases first with
    | none => exact List.perm_nil.1 hperm
    | some f => exact List.perm_singleton.1 hperm
  rw [← List.head?_filter, ← List.head?_filter, hsame]

/-- Merging is a union in which the left side wins. -/
theorem merge_union :
    merge [] = {} ∧
    (∀ F, merge [build F] = build F ∧ merge [build F, build F] = build F) ∧
    (∀ F G H, merge [build F, merge [build G, build H]] = merge [build F, build G, build H] ∧
      merge [merge [build F, build G], build H] = merge [build F, build G, build H]) ∧
    (∀ cs i, (∃ f ∈ (merge cs).faces.toList, f.id.same i = true) ↔
      ∃ c ∈ cs, ∃ f ∈ c.faces.toList, f.id.same i = true) ∧
    (∀ cs i, (merge cs).faces.toList.filter (·.id.same i) = (earliest i cs).toList) ∧
    ∀ F G, G.Perm (build F).faces.toList → build G = build F := by
  refine ⟨merge_nil, fun F => ⟨merge_build F, ?_⟩, fun F G H => ⟨?_, ?_⟩, exists_merge_iff, fun cs i => ?_,
    fun F G => build_of_perm⟩
  · rw [merge_twice, merge_build]
  · have hgroups := merge_map_merge [[build F], [build G, build H]]
    rwa [List.map_cons, List.map_singleton, merge_build] at hgroups
  · have hgroups := merge_map_merge [[build F, build G], [build H]]
    rwa [List.map_cons, List.map_singleton, merge_build] at hgroups
  · rw [← find?_merge]
    exact (arrange_ascending _).filter_same i

def firstFace : Face := { fullName := "A", path := .ofString "/f/a.ttc", index := 0 }

def secondFace : Face := { fullName := "B", path := .ofString "/f//a.ttc", index := 1 }

theorem merge_union_reversed :
    [secondFace, firstFace].Perm (build [firstFace, secondFace]).faces.toList ∧
      build [secondFace, firstFace] = build [firstFace, secondFace] := by
  have hfaces : (build [firstFace, secondFace]).faces.toList = [firstFace, secondFace] := by
    rw [build, arrange_of_ascending _ (by unfold Ascending; decide)]
    rfl
  have hperm : [secondFace, firstFace].Perm (build [firstFace, secondFace]).faces.toList := by
    rw [hfaces]
    exact .swap firstFace secondFace []
  exact ⟨hperm, merge_union.2.2.2.2.2 _ _ hperm⟩

end FontCatalog.Catalog
