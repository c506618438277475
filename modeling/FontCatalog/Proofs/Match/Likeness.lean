import FontCatalog.Proofs.Match.Ladder
import Mathlib.Data.List.Forall2

/-! Lists of faces that the ladder cannot tell apart. It does nothing but filter the faces by what their
fonts say, put lists behind one another and look at the first face; so a relation of lists that all this
keeps carries over to the answers. Such a relation is that the same faces stand side by side, or that each
test finds the same face first. -/
namespace FontCatalog
set_option autoImplicit false

namespace Face

/-! ## What a font says -/

theorem typographicNames_eq {f g : Face} (h : f.toFaceMetadata = g.toFaceMetadata) :
    f.typographicNames = g.typographicNames :=
  congrArg (fun m : FaceMetadata => m.typographicFamilies.map LocalizedName.name) h

theorem win32Names_eq {f g : Face} (h : f.toFaceMetadata = g.toFaceMetadata) : f.win32Names = g.win32Names :=
  congrArg (fun m : FaceMetadata => [m.win32Family]) h

theorem fullNames_eq {f g : Face} (h : f.toFaceMetadata = g.toFaceMetadata) : f.fullNames = g.fullNames :=
  congrArg (fun m : FaceMetadata => [m.fullName]) h

theorem postscriptNames_eq {f g : Face} (h : f.toFaceMetadata = g.toFaceMetadata) :
    f.postscriptNames = g.postscriptNames :=
  congrArg (fun m : FaceMetadata => [m.postscriptName]) h

/-- Whether a test of faces does not look at their places. -/
def Placeless (test : Face → Bool) : Prop :=
  ∀ f g : Face, f.toFaceMetadata = g.toFaceMetadata → test f = test g

theorem Placeless.not {test : Face → Bool} (h : Placeless test) : Placeless fun f => !test f :=
  fun f g hfg => congrArg (!·) (h f g hfg)

theorem placeless_names {names : Face → List String}
    (hnames : ∀ f g : Face, f.toFaceMetadata = g.toFaceMetadata → names f = names g) (test : String → Bool) :
    Placeless fun f => (names f).any test :=
  fun f g hfg => congrArg (·.any test) (hnames f g hfg)

theorem placeless_psOutline : Placeless (·.psOutline) :=
  fun _ _ hfg => congrArg FaceMetadata.psOutline hfg

theorem placeless_suits (s : StyleHints) : Placeless fun f => decide (Ladder.Suits s f) := by
  intro f g hfg
  have hweight : f.weight = g.weight := congrArg FaceMetadata.weight hfg
  have hitalic : f.italic = g.italic := congrArg FaceMetadata.italic hfg
  apply decide_eq_decide.2
  rw [Ladder.Suits, Ladder.Suits, hweight, hitalic]

end Face

/-- Whether answers come from one rung with related faces, or there is none. -/
def Answer.Like (S : Face → Face → Prop) : Answer → Answer → Prop
  | .found f t, .found g u => S f g ∧ t = u
  | .notFound, .notFound => True
  | _, _ => False

namespace Ladder

/-- A relation of lists that the ladder keeps, and that relates their first faces by `S`. -/
structure Respected (R : List Face → List Face → Prop) (S : Face → Face → Prop) : Prop where
  first : ∀ {F G}, R F G → Option.Rel S F.head? G.head?
  filter : ∀ {test}, Face.Placeless test → ∀ {F G}, R F G → R (F.filter test) (G.filter test)
  append : ∀ {F G F' G'}, R F G → R F' G' → R (F ++ F') (G ++ G')

variable {R : List Face → List Face → Prop} {S : Face → Face → Prop} {F G : List Face}

theorem Respected.nil_iff (hR : Respected R S) (h : R F G) : F = [] ↔ G = [] := by
  have hfirst := hR.first h
  cases F <;> cases G <;> simp at hfirst ⊢

/-! ## Rungs -/

section
variable (hR : Respected R S) (h : R F G)
include hR h

theorem Respected.alike {names : Face → List String}
    (hnames : ∀ f g : Face, f.toFaceMetadata = g.toFaceMetadata → names f = names g) (key : String → String)
    (name : String) : R (alike names key name F) (alike names key name G) :=
  hR.filter (Face.placeless_names hnames _) h

theorem Respected.beginning {names : Face → List String}
    (hnames : ∀ f g : Face, f.toFaceMetadata = g.toFaceMetadata → names f = names g) (name : String) :
    R (beginning names name F) (beginning names name G) :=
  hR.filter (Face.placeless_names hnames _) h

theorem Respected.familyRungs (name : String) :
    List.Forall₂ (fun r s => r.1 = s.1 ∧ R r.2 s.2) (familyRungs name F) (familyRungs name G) := by
  have htypographic (key : String → String) := hR.alike h (fun _ _ => Face.typographicNames_eq) key name
  have hwin32 (key : String → String) := hR.alike h (fun _ _ => Face.win32Names_eq) key name
  have htypographicStem := hR.beginning h (fun _ _ => Face.typographicNames_eq) name
  have hwin32Stem := hR.beginning h (fun _ _ => Face.win32Names_eq) name
  unfold Ladder.familyRungs
  refine List.rel_append (List.rel_append ?_ ?_) ?_
  · exact .cons ⟨rfl, htypographic _⟩ (.cons ⟨rfl, hwin32 _⟩ .nil)
  · split
    · exact .nil
    · exact .cons ⟨rfl, htypographic _⟩ (.cons ⟨rfl, hwin32 _⟩ .nil)
  · split
    · exact .cons ⟨rfl, htypographicStem⟩ (.cons ⟨rfl, hwin32Stem⟩ .nil)
    · exact .nil

theorem Respected.nameRung (name : String) : R (nameRung name F) (nameRung name G) := by
  have hpostscript := hR.alike h (fun _ _ => Face.postscriptNames_eq) Name.familyKey name
  have hfull := hR.alike h (fun _ _ => Face.fullNames_eq) Name.familyKey name
  have hsuited := hR.append (hR.filter Face.placeless_psOutline hpostscript)
    (hR.filter Face.placeless_psOutline.not hfull)
  unfold Ladder.nameRung
  dsimp only
  simp only [hR.nil_iff hsuited]
  split
  · exact hR.append hpostscript hfull
  · exact hsuited

theorem Respected.pick (s : StyleHints) : Option.Rel S (pick s F) (pick s G) := by
  have hsuited := hR.filter (Face.placeless_suits s) h
  have hfirst := hR.first hsuited
  unfold Ladder.pick
  generalize F.filter (fun f => decide (Suits s f)) = suitedF at hfirst ⊢
  generalize G.filter (fun f => decide (Suits s f)) = suitedG at hfirst ⊢
  cases suitedF with
  | nil =>
    cases suitedG with
    | nil => exact hR.first h
    | cons g G => cases hfirst
  | cons f F =>
    cases suitedG with
    | nil => cases hfirst
    | cons g G => exact hfirst

/-! ## Answers -/

/-- The answers among related lists are related. -/
theorem Respected.answer (q : Query) : (answer F q).Like S (answer G q) := by
  have hrungs : List.Forall₂ (fun r s => r.1 = s.1 ∧ R r.2 s.2)
      ((Ladder.familyRungs (asked q.family) F).filter (·.2 ≠ []))
      ((Ladder.familyRungs (asked q.family) G).filter (·.2 ≠ [])) := by
    refine List.rel_filter ?_ (hR.familyRungs h _)
    rintro r s ⟨-, hrung⟩
    simp [hR.nil_iff hrung]
  unfold Ladder.answer
  dsimp only
  split
  · trivial
  · rw [← List.head?_filter, ← List.head?_filter]
    generalize (Ladder.familyRungs (asked q.family) F).filter (·.2 ≠ []) = rungsF at hrungs ⊢
    generalize (Ladder.familyRungs (asked q.family) G).filter (·.2 ≠ []) = rungsG at hrungs ⊢
    cases hrungs with
    | nil =>
      have hfirst := hR.first (hR.nameRung h (asked q.family))
      generalize Ladder.nameRung (asked q.family) F = namesF at hfirst ⊢
      generalize Ladder.nameRung (asked q.family) G = namesG at hfirst ⊢
      cases namesF with
      | nil =>
        cases namesG with
        | nil => trivial
        | cons g G => cases hfirst
      | cons f F =>
        cases namesG with
        | nil => cases hfirst
        | cons g G =>
          cases hfirst with
          | some hfg => exact ⟨hfg, rfl⟩
    | @cons r s _ _ hrung _ =>
      obtain ⟨t, groupF⟩ := r
      obtain ⟨u, groupG⟩ := s
      obtain ⟨htier, hgroup⟩ := hrung
      have hpick := hR.pick hgroup q.style
      simp only [List.head?_cons]
      generalize Ladder.pick q.style groupF = pickF at hpick ⊢
      generalize Ladder.pick q.style groupG = pickG at hpick ⊢
      cases hpick with
      | none => trivial
      | some hfg => exact ⟨hfg, htier⟩

end

end Ladder

end FontCatalog
