import FontCatalog.Proofs.Catalog.Order
import FontCatalog.Proofs.Match.Likeness

/-! Catalogs with and without copies of faces. A face that says the same as an earlier one is never the
first to pass a test of what fonts say, and an answer is always the first face to pass one; so a catalog
answers as before when such faces are left out. -/
namespace FontCatalog
set_option autoImplicit false

/-- Whether each test of what fonts say finds the same face first. -/
def SameFirsts (F G : List Face) : Prop := ∀ test, Face.Placeless test → F.find? test = G.find? test

theorem sameFirsts_respected : Ladder.Respected SameFirsts (· = ·) where
  first {F G} h := by
    have hfirst := h (fun _ => true) fun _ _ _ => rfl
    cases F <;> cases G <;> simp_all
  filter {test} htest {F G} h := by
    intro other hother
    rw [List.find?_filter, List.find?_filter]
    apply h
    intro f g hfg
    apply decide_eq_decide.2
    rw [htest f g hfg, hother f g hfg]
  append {F G F' G'} h h' := by
    intro test htest
    rw [List.find?_append, List.find?_append, h test htest, h' test htest]

theorem SameFirsts.answer_eq {F G : List Face} (h : SameFirsts F G) (q : Query) :
    Ladder.answer F q = Ladder.answer G q := by
  have hlike := sameFirsts_respected.answer h q
  generalize Ladder.answer F q = answerF at hlike ⊢
  generalize Ladder.answer G q = answerG at hlike ⊢
  cases answerF with
  | notFound =>
    cases answerG with
    | notFound => rfl
    | found g u => cases hlike
  | found f t =>
    cases answerG with
    | notFound => cases hlike
    | found g u =>
      obtain ⟨rfl, rfl⟩ := hlike
      rfl

namespace Catalog

variable {F G : List Face}

/-! ## The first face -/

/-- The first face to pass a test comes before all others that pass it. -/
theorem Ascending.find?_least (hF : Ascending F) {test : Face → Bool} {f : Face} (hfirst : F.find? test = some f)
    {g : Face} (hg : g ∈ F) (htest : test g = true) : g = f ∨ compare f.id g.id = .lt := by
  unfold Ascending at hF
  induction F with
  | nil => cases hg
  | cons e F ih =>
    obtain ⟨he, hF⟩ := List.pairwise_cons.1 hF
    cases hpass : test e with
    | true =>
      rw [List.find?_cons_of_pos hpass] at hfirst
      obtain rfl := Option.some.inj hfirst
      rcases List.mem_cons.1 hg with rfl | hg
      · exact .inl rfl
      · exact .inr (he g hg)
    | false =>
      rw [List.find?_cons_of_neg (by rw [hpass]; exact Bool.false_ne_true)] at hfirst
      rcases List.mem_cons.1 hg with rfl | hg
      · rw [hpass] at htest
        cases htest
      · exact ih hF hfirst hg

theorem Ascending.sameFirsts (hF : Ascending F) (hG : Ascending G) (hsub : ∀ f ∈ F, f ∈ G)
    (hless : ∀ g ∈ G, ∃ f ∈ F, f.toFaceMetadata = g.toFaceMetadata ∧ (compare f.id g.id).isLE = true) :
    SameFirsts F G := by
  intro test htest
  cases hfirst : G.find? test with
  | none =>
    rw [List.find?_eq_none] at hfirst ⊢
    exact fun f hf => hfirst f (hsub f hf)
  | some g =>
    have hg := List.mem_of_find?_eq_some hfirst
    obtain ⟨f, hf, hsame, hle⟩ := hless g hg
    have hpass : test f = true := by
      rw [htest f g hsame]
      exact List.find?_some hfirst
    -- The copy of `g` that is kept cannot come before `g`, so it is `g` itself.
    have hkept : g ∈ F := by
      rcases hG.find?_least hfirst (hsub f hf) hpass with rfl | hlt
      · exact hf
      · rw [Std.OrientedCmp.gt_of_lt hlt] at hle
        cases hle
    obtain ⟨e, he⟩ := Option.isSome_iff_exists.1 (List.find?_isSome.2 ⟨g, hkept, List.find?_some hfirst⟩)
    rw [he]
    rcases hF.find?_least he hkept (List.find?_some hfirst) with rfl | hlt
    · rfl
    · rcases hG.find?_least hfirst (hsub e (List.mem_of_find?_eq_some he)) (List.find?_some he) with rfl | hgt
      · rfl
      · rw [Std.OrientedCmp.gt_of_lt hlt] at hgt
        cases hgt

/-! ## Leaving out copies -/

/-- Whether the identity of a face is that of no other one. -/
def Distinct (faces : List Face) : Prop := ∀ f ∈ faces, ∀ g ∈ faces, f.id.same g.id = true → f = g

theorem mem_arrange_iff (h : Distinct F) {f : Face} : f ∈ arrange F ↔ f ∈ F := by
  refine ⟨mem_of_mem_arrange, ?_⟩
  intro hf
  obtain ⟨g, hg, hsame⟩ := exists_mem_arrange hf
  rwa [← h g (mem_of_mem_arrange hg) f hf hsame]

/-- Faces may be left out that say the same as one with a smaller identity. -/
theorem find_build_eq (hG : Distinct G) (hsub : ∀ f ∈ F, f ∈ G)
    (hless : ∀ g ∈ G, ∃ f ∈ F, f.toFaceMetadata = g.toFaceMetadata ∧ (compare f.id g.id).isLE = true)
    (q : Query) : (build F).find q = (build G).find q := by
  have hF : Distinct F := fun f hf g hg => hG f (hsub f hf) g (hsub g hg)
  have hfirsts : SameFirsts (arrange F) (arrange G) := by
    refine (arrange_ascending F).sameFirsts (arrange_ascending G) ?_ ?_
    · intro f hf
      rw [mem_arrange_iff hF] at hf
      rw [mem_arrange_iff hG]
      exact hsub f hf
    · intro g hg
      obtain ⟨f, hf, hsame, hle⟩ := hless g ((mem_arrange_iff hG).1 hg)
      exact ⟨f, (mem_arrange_iff hF).2 hf, hsame, hle⟩
  rw [build, build, find_ofArranged, find_ofArranged, hfirsts.answer_eq]

end Catalog

end FontCatalog
