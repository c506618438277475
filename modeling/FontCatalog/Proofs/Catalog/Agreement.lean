import FontCatalog.Proofs.Catalog.Lookups
import FontCatalog.Proofs.Match.Likeness

/-! Catalogs that agree: their faces are the same one by one, paths by component, and so is every answer
that they give. Lists that hold the same faces, in whatever order, make catalogs that agree, as long as
faces of one identity are the same. -/
namespace FontCatalog
set_option autoImplicit false

/-! ## Faces that are the same -/

abbrev SameFaces (F G : List Face) : Prop := List.Forall₂ (fun f g => f.same g = true) F G

theorem FaceId.same_iff_and {a b : FaceId} :
    a.same b = true ↔ a.path.same b.path = true ∧ a.index = b.index := by
  have hpath : a.path.same b.path = true ↔ compare a.path b.path = .eq := by
    show (a.path.key == b.path.key) = true ↔ compare a.path.key b.path.key = .eq
    rw [beq_iff_eq, Std.LawfulEqCmp.compare_eq_iff_eq]
  have hindex : compare a.index b.index = .eq ↔ a.index = b.index := Std.LawfulEqCmp.compare_eq_iff_eq
  rw [FaceId.same_iff, hpath, ← hindex]
  exact Ordering.then_eq_eq

namespace Face

theorem same_iff {f g : Face} :
    f.same g = true ↔ f.toFaceMetadata = g.toFaceMetadata ∧ f.id.same g.id = true := by
  unfold same
  rw [Bool.and_eq_true, Bool.and_eq_true, beq_iff_eq, beq_iff_eq, FaceId.same_iff_and, and_assoc]
  rfl

end Face

theorem Lookup.names_eq (l : Lookup) {f g : Face} (h : f.toFaceMetadata = g.toFaceMetadata) :
    l.names f = l.names g := by
  cases l
  case typographic | typographicExact | typographicLoose => exact Face.typographicNames_eq h
  case win32 | win32Exact | win32Loose => exact Face.win32Names_eq h
  case fullName => exact Face.fullNames_eq h
  case postscriptName => exact Face.postscriptNames_eq h

/-! ## Agreement -/

structure FaceGroup.Agrees (g h : FaceGroup) : Prop where
  name : g.name = h.name
  faces : SameFaces g.faces h.faces

/-- The same face on the same rung, or none from both. -/
def Answer.Agrees : Answer → Answer → Prop
  | .found f t, .found g u => f.same g = true ∧ t = u
  | .notFound, .notFound => True
  | _, _ => False

namespace Catalog

structure Agrees (c d : Catalog) : Prop where
  faces : SameFaces c.faces.toList d.faces.toList
  lookups : ∀ (l : Lookup) (name : String), (l.run c name).Agrees (l.run d name)
  typographicStem : ∀ stem, (c.typographicStem stem).Agrees (d.typographicStem stem)
  win32Stem : ∀ stem, (c.win32Stem stem).Agrees (d.win32Stem stem)
  families : c.typographicFamilies = d.typographicFamilies ∧ c.win32Families = d.win32Families
  find : ∀ q, (c.find q).Agrees (d.find q)

section
variable {F G : List Face} {names : Face → List String}

/-! ## Groups -/

theorem ofFaces_same (hnames : ∀ f g : Face, f.toFaceMetadata = g.toFaceMetadata → names f = names g)
    (key : String → String) (h : SameFaces F G) :
    NameMap.ofFaces names key F = NameMap.ofFaces names key G := by
  have hall : ∀ (m : NameMap) (p : Nat),
      NameMap.enterAll names key m p F = NameMap.enterAll names key m p G := by
    induction h with
    | nil => intro m p; rfl
    | cons hfg hrest ih =>
      intro m p
      rw [NameMap.enterAll, NameMap.enterAll, hnames _ _ (Face.same_iff.1 hfg).1, ih]
  exact hall ∅ 0

theorem atPositions_same (h : SameFaces F G) (positions : List Nat) :
    SameFaces ((ofArranged F).atPositions positions) ((ofArranged G).atPositions positions) := by
  unfold atPositions
  induction positions with
  | nil => exact .nil
  | cons p positions ih =>
    have hlength := h.length_eq
    by_cases hp : p < F.length
    · have hpG : p < G.length := by omega
      have hF : (ofArranged F).faces[p]? = some F[p] := by
        simp [ofArranged, hp]
      have hG : (ofArranged G).faces[p]? = some G[p] := by
        simp [ofArranged, hpG]
      rw [List.filterMap_cons_some hF, List.filterMap_cons_some hG]
      exact .cons (h.get hp hpG) ih
    · have hF : (ofArranged F).faces[p]? = none := by
        simpa [ofArranged] using hp
      have hG : (ofArranged G).faces[p]? = none := by
        simp only [ofArranged, List.getElem?_toArray, List.getElem?_eq_none_iff]
        omega
      rw [List.filterMap_cons_none hF, List.filterMap_cons_none hG]
      exact ih

theorem group_same (h : SameFaces F G) (m : NameMap) (k : String) :
    ((ofArranged F).group m k).Agrees ((ofArranged G).group m k) := by
  unfold group
  cases m[k]? with
  | none => exact ⟨rfl, .nil⟩
  | some e => exact ⟨rfl, atPositions_same h e.positions⟩

theorem groupOfStem_same (h : SameFaces F G) (m : NameMap) (stem : String) :
    ((ofArranged F).groupOfStem m stem).Agrees ((ofArranged G).groupOfStem m stem) := by
  unfold groupOfStem
  cases m.startingWith stem with
  | nil => exact ⟨rfl, .nil⟩
  | cons e rest => exact ⟨rfl, atPositions_same h _⟩

end

/-! ## Answers -/

theorem sameFaces_respected : Ladder.Respected SameFaces fun f g => f.same g = true where
  first h := by
    cases h with
    | nil => exact .none
    | cons hfg _ => exact .some hfg
  filter htest := by
    intro F G h
    refine List.rel_filter ?_ h
    intro f g hfg
    exact Bool.eq_iff_iff.1 (htest f g (Face.same_iff.1 hfg).1)
  append h h' := List.rel_append h h'

theorem answer_same {F G : List Face} (h : SameFaces F G) (q : Query) :
    (Ladder.answer F q).Agrees (Ladder.answer G q) := by
  have hlike := sameFaces_respected.answer h q
  generalize Ladder.answer F q = answerF at hlike ⊢
  generalize Ladder.answer G q = answerG at hlike ⊢
  cases answerF <;> cases answerG <;> exact hlike

theorem ofArranged_agrees {F G : List Face} (h : SameFaces F G) :
    (ofArranged F).Agrees (ofArranged G) := by
  have htypographic (key : String → String) := ofFaces_same (fun _ _ => Face.typographicNames_eq) key h
  have hwin32 (key : String → String) := ofFaces_same (fun _ _ => Face.win32Names_eq) key h
  have hstems (m : NameMap) (stem : String) := groupOfStem_same h m stem
  have hexact : (ofArranged F).typographic.exact = (ofArranged G).typographic.exact ∧
      (ofArranged F).win32.exact = (ofArranged G).win32.exact := ⟨htypographic _, hwin32 _⟩
  constructor
  · exact h
  · intro l name
    have hmap : l.map (ofArranged F) = l.map (ofArranged G) := by
      rw [Lookup.map_ofArranged, Lookup.map_ofArranged]
      exact ofFaces_same (fun _ _ => l.names_eq) l.key h
    rw [Lookup.run_eq, Lookup.run_eq, hmap]
    exact group_same h _ _
  · intro stem
    rw [typographicStem, typographicStem, hexact.1]
    exact hstems _ _
  · intro stem
    rw [win32Stem, win32Stem, hexact.2]
    exact hstems _ _
  · exact ⟨congrArg NameMap.displays (htypographic _), congrArg NameMap.displays (hwin32 _)⟩
  · intro q
    rw [find_ofArranged, find_ofArranged]
    exact answer_same h q

/-! ## Other orders -/

/-- Ascending faces with the same identities stand side by side. -/
theorem Ascending.sameFaces {F G : List Face} (hF : Ascending F) (hG : Ascending G)
    (hleft : ∀ f ∈ F, ∃ g ∈ G, g.id.same f.id = true)
    (hright : ∀ g ∈ G, ∃ f ∈ F, f.id.same g.id = true)
    (hsame : ∀ f ∈ F, ∀ g ∈ G, f.id.same g.id = true → f.same g = true) : SameFaces F G := by
  unfold Ascending at hF hG
  induction F generalizing G with
  | nil =>
    cases G with
    | nil => exact .nil
    | cons g G =>
      obtain ⟨f, hf, -⟩ := hright g List.mem_cons_self
      cases hf
  | cons f F ih =>
    cases G with
    | nil =>
      obtain ⟨g, hg, -⟩ := hleft f List.mem_cons_self
      cases hg
    | cons g G =>
      obtain ⟨hf, hF⟩ := List.pairwise_cons.1 hF
      obtain ⟨hg, hG⟩ := List.pairwise_cons.1 hG
      -- Each list begins with its least identity, and neither can be less than the other.
      have hheads : compare f.id g.id = .eq := by
        obtain ⟨g', hg', hgf⟩ := hleft f List.mem_cons_self
        obtain ⟨f', hf', hfg⟩ := hright g List.mem_cons_self
        rw [FaceId.same_iff] at hgf hfg
        rcases List.mem_cons.1 hg' with rfl | hg'
        · exact Std.OrientedCmp.eq_symm hgf
        rcases List.mem_cons.1 hf' with rfl | hf'
        · exact hfg
        have hlt : compare f.id g.id = .lt := by
          rw [← Std.TransCmp.congr_right hfg]
          exact hf f' hf'
        have hgt : compare g.id f.id = .lt := by
          rw [← Std.TransCmp.congr_right hgf]
          exact hg g' hg'
        rw [Std.OrientedCmp.gt_of_lt hgt] at hlt
        cases hlt
      have htailLeft : ∀ x ∈ F, ∃ y ∈ G, y.id.same x.id = true := by
        intro x hx
        obtain ⟨y, hy, hyx⟩ := hleft x (List.mem_cons_of_mem _ hx)
        rcases List.mem_cons.1 hy with rfl | hy
        · have hlt := hf x hx
          rw [Std.TransCmp.congr_left hheads, (FaceId.same_iff ..).1 hyx] at hlt
          cases hlt
        · exact ⟨y, hy, hyx⟩
      have htailRight : ∀ y ∈ G, ∃ x ∈ F, x.id.same y.id = true := by
        intro y hy
        obtain ⟨x, hx, hxy⟩ := hright y (List.mem_cons_of_mem _ hy)
        rcases List.mem_cons.1 hx with rfl | hx
        · have hlt := hg y hy
          rw [← Std.TransCmp.congr_left hheads, (FaceId.same_iff ..).1 hxy] at hlt
          cases hlt
        · exact ⟨x, hx, hxy⟩
      refine .cons ?_ (ih hF hG htailLeft htailRight ?_)
      · exact hsame f List.mem_cons_self g List.mem_cons_self ((FaceId.same_iff ..).2 hheads)
      · intro x hx y hy
        exact hsame x (List.mem_cons_of_mem _ hx) y (List.mem_cons_of_mem _ hy)

/-- Faces of one identity are the same, so that it does not matter which of them comes first. -/
def Consistent (faces : List Face) : Prop :=
  ∀ f ∈ faces, ∀ g ∈ faces, f.id.same g.id = true → f.same g = true

theorem build_agrees {F G : List Face} (hperm : F.Perm G) (h : Consistent F) :
    (build F).Agrees (build G) := by
  refine ofArranged_agrees ((arrange_ascending F).sameFaces (arrange_ascending G) ?_ ?_ ?_)
  · intro f hf
    exact exists_mem_arrange (hperm.subset (mem_of_mem_arrange hf))
  · intro g hg
    exact exists_mem_arrange (hperm.symm.subset (mem_of_mem_arrange hg))
  · intro f hf g hg
    exact h f (mem_of_mem_arrange hf) g (hperm.symm.subset (mem_of_mem_arrange hg))

end Catalog

end FontCatalog
