import FontCatalog.Proofs.Match.Folding

/-! What a wanted style may change. No rung looks at it, so it decides neither whether a face is found nor in
which rung. Within a family it moves the answer to the first face that suits; where none does, and for full
names, the answer is that of a request without wishes. -/
namespace FontCatalog
set_option autoImplicit false

namespace Ladder
open Name

/-! ## Groups -/

/-- The rung of family names that decides: the first with a face. -/
def familyGroup (name : String) (faces : List Face) : Option (Tier × List Face) :=
  (familyRungs name faces).find? (·.2 ≠ [])

theorem rung_eq_filter {name : String} {faces : List Face} {r : Tier × List Face}
    (hr : r ∈ familyRungs name faces) : ∃ test : Face → Bool, r.2 = faces.filter test := by
  unfold familyRungs at hr
  simp only [List.mem_append, List.mem_cons, List.not_mem_nil, or_false] at hr
  rcases hr with ((rfl | rfl) | hr) | hr
  · exact ⟨_, rfl⟩
  · exact ⟨_, rfl⟩
  · split at hr
    · cases hr
    · simp only [List.mem_cons, List.not_mem_nil, or_false] at hr
      rcases hr with rfl | rfl <;> exact ⟨_, rfl⟩
  · split at hr
    · simp only [List.mem_cons, List.not_mem_nil, or_false] at hr
      rcases hr with rfl | rfl <;> exact ⟨_, rfl⟩
    · cases hr

theorem find?_rung {name : String} {faces : List Face} {r : Tier × List Face}
    (hr : r ∈ familyRungs name faces) (s : StyleHints) :
    r.2.find? (Suits s ·) = faces.find? fun f => f ∈ r.2 ∧ Suits s f := by
  -- A rung is what passes a test, so its faces stand in it as they stand among all.
  obtain ⟨test, htest⟩ := rung_eq_filter hr
  have hborn {f : Face} (hf : f ∈ faces) : f ∈ r.2 ↔ test f = true := by
    rw [htest, List.mem_filter, and_iff_right hf]
  rw [htest, List.find?_filter, ← List.head?_filter, ← List.head?_filter]
  congr 1
  apply List.filter_congr
  intro f hf
  rw [Bool.eq_iff_iff]
  simp [← htest, hborn hf]

section
variable {name : String} {faces : List Face} {t : Tier} {group : List Face}

theorem mem_of_familyGroup (h : familyGroup name faces = some (t, group)) :
    (t, group) ∈ familyRungs name faces ∧ group ≠ [] :=
  ⟨List.mem_of_find?_eq_some h, by simpa using List.find?_some h⟩

theorem tier_of_familyGroup (h : familyGroup name faces = some (t, group)) : t ≠ .fullName :=
  tier_of_mem_familyRungs (mem_of_familyGroup h).1

/-! ## Answers -/

theorem pick_of_suits {s : StyleHints} {f : Face} (h : group.find? (Suits s ·) = some f) :
    pick s group = some f := by
  rw [← List.head?_filter] at h
  unfold pick
  split
  · next g rest hg =>
    rw [hg] at h
    exact h
  · next hg =>
    rw [hg] at h
    cases h

theorem pick_of_none {s : StyleHints} (h : ¬∃ g ∈ group, Suits s g) : pick s group = group.head? := by
  have hnone : group.filter (Suits s ·) = [] := by
    rw [List.filter_eq_nil_iff]
    intro g hg hsuits
    exact h ⟨g, hg, of_decide_eq_true hsuits⟩
  rw [pick, hnone]

theorem suits_any (f : Face) : Suits {} f := ⟨nofun, nofun⟩

theorem pick_any (group : List Face) : pick {} group = group.head? := by
  cases group with
  | nil => rfl
  | cons f rest =>
    exact pick_of_suits (List.find?_cons_of_pos (decide_eq_true (suits_any f)))

/-- The first face that suits is picked, and where none does the face that is picked without wishes. -/
theorem pick_cases {s : StyleHints} {f : Face} (h : pick s group = some f) :
    if ∃ g ∈ group, Suits s g then Suits s f ∧ group.find? (Suits s ·) = some f else pick {} group = some f := by
  split
  · next hsome =>
    obtain ⟨g, hg, hsuits⟩ := hsome
    have hfound : (group.find? (Suits s ·)).isSome = true :=
      List.find?_isSome.2 ⟨g, hg, decide_eq_true hsuits⟩
    obtain ⟨first, hfirst⟩ := Option.isSome_iff_exists.1 hfound
    obtain rfl : first = f := Option.some.inj ((pick_of_suits hfirst).symm.trans h)
    exact ⟨by simpa using List.find?_some hfirst, hfirst⟩
  · next hnone => rw [pick_any, ← pick_of_none hnone, h]

end

/-- The rung, and the name rung where there is none, are the same for all styles. -/
theorem answer_cases (faces : List Face) (family : String) :
    (∀ s, answer faces ⟨family, s⟩ = .notFound) ∨
      (∃ f, ∀ s, answer faces ⟨family, s⟩ = .found f .fullName) ∨
      ∃ t group, Text.isBlankText (undecorate family) = false ∧
        familyGroup (undecorate family) faces = some (t, group) ∧
        ∀ s, ∃ f, pick s group = some f ∧ answer faces ⟨family, s⟩ = .found f t := by
  cases hblank : Text.isBlankText (undecorate family) with
  | true => exact .inl fun s => by simp only [answer, asked_eq, hblank, if_true]
  | false =>
    cases hgroup : (familyRungs (undecorate family) faces).find? (·.2 ≠ []) with
    | some r =>
      obtain ⟨t, group⟩ := r
      refine .inr (.inr ⟨t, group, rfl, hgroup, fun s => ?_⟩)
      obtain ⟨f, hf⟩ := Option.isSome_iff_exists.1 (pick_isSome s (mem_of_familyGroup hgroup).2)
      refine ⟨f, hf, ?_⟩
      simp only [answer, asked_eq, hblank, hgroup, hf, Bool.false_eq_true, if_false]
    | none =>
      cases hnames : nameRung (undecorate family) faces with
      | nil =>
        refine .inl fun s => ?_
        simp only [answer, asked_eq, hblank, hgroup, hnames, Bool.false_eq_true, if_false]
      | cons f rest =>
        refine .inr (.inl ⟨f, fun s => ?_⟩)
        simp only [answer, asked_eq, hblank, hgroup, hnames, Bool.false_eq_true, if_false]

end Ladder

/-! ## Requests -/

namespace Catalog
open Name Ladder

theorem familyCandidates_build {faces : List Face} {name : String} (hblank : Text.isBlankText name = false) :
    (build faces).familyCandidates name =
      (familyGroup name (build faces).faces.toList).map fun r => (r.2, r.1) :=
  familyCandidates_eq (arrange faces) hblank

theorem find_refined (faces : List Face) (family : String) :
    (∀ s₁ s₂ : StyleHints, ((build faces).find ⟨family, s₁⟩).tier? = ((build faces).find ⟨family, s₂⟩).tier?) ∧
    (∀ s₁ s₂ : StyleHints, ((build faces).find ⟨family, s₁⟩).tier? = some .fullName →
      (build faces).find ⟨family, s₁⟩ = (build faces).find ⟨family, s₂⟩) ∧
    ∀ (s : StyleHints) (f : Face) (t : Tier), (build faces).find ⟨family, s⟩ = .found f t → t ≠ .fullName →
      ∃ group, (build faces).familyCandidates (undecorate family) = some (group, t) ∧
        if ∃ g ∈ group, Suits s g then
          Suits s f ∧ (build faces).faces.toList.find? (fun g => g ∈ group ∧ Suits s g) = some f
        else (build faces).find ⟨family, {}⟩ = .found f t := by
  simp only [find_build]
  rcases answer_cases (build faces).faces.toList family with hnone | ⟨g, hname⟩ | ⟨u, group, hblank, hgroup, hpick⟩
  · exact ⟨fun s₁ s₂ => by rw [hnone, hnone], fun s₁ s₂ _ => by rw [hnone, hnone],
      fun s f t h => by rw [hnone] at h; cases h⟩
  · refine ⟨fun s₁ s₂ => by rw [hname, hname], fun s₁ s₂ _ => by rw [hname, hname], fun s f t h ht => ?_⟩
    rw [hname] at h
    cases h
    exact absurd rfl ht
  · have htier (s : StyleHints) : (answer (build faces).faces.toList ⟨family, s⟩).tier? = some u := by
      obtain ⟨f, -, hf⟩ := hpick s
      rw [hf]
      rfl
    refine ⟨fun s₁ s₂ => by rw [htier, htier], fun s₁ s₂ h => ?_, fun s f t h _ => ?_⟩
    · rw [htier] at h
      exact absurd (Option.some.inj h) (tier_of_familyGroup hgroup)
    · obtain ⟨f', hf', hanswer⟩ := hpick s
      rw [hanswer] at h
      cases h
      have hcases := pick_cases hf'
      refine ⟨group, by rw [familyCandidates_build hblank, hgroup]; rfl, ?_⟩
      split
      · next hsome =>
        rw [if_pos hsome, find?_rung (mem_of_familyGroup hgroup).1] at hcases
        exact hcases
      · next hnone =>
        rw [if_neg hnone] at hcases
        obtain ⟨f₀, hf₀, hanswer₀⟩ := hpick {}
        rw [hcases, Option.some.injEq] at hf₀
        rw [hanswer₀, hf₀]

def regularFace : Face :=
  { typographicFamilies := [{ name := "Foo" }], path := .ofString "/f/a.ttf", index := 0 }

def boldFace : Face := { regularFace with weight := 700, index := 1 }

theorem find_refined_bold :
    (build [regularFace, boldFace]).find ⟨"foo", { bold := some true }⟩ = .found boldFace .exactTypographic ∧
    ∃ group, (build [regularFace, boldFace]).familyCandidates "foo" = some (group, .exactTypographic) ∧
      if ∃ g ∈ group, Suits { bold := some true } g then
        Suits { bold := some true } boldFace ∧
          (build [regularFace, boldFace]).faces.toList.find? (fun g => g ∈ group ∧ Suits { bold := some true } g) = some boldFace
      else (build [regularFace, boldFace]).find ⟨"foo", {}⟩ = .found boldFace .exactTypographic := by
  have hbuild : build [regularFace, boldFace] = ofArranged [regularFace, boldFace] := by
    rw [build, arrange_of_ascending _ (by unfold Ascending; decide)]
  have hfound : (build [regularFace, boldFace]).find ⟨"foo", { bold := some true }⟩ = .found boldFace .exactTypographic := by
    rw [hbuild, find_ofArranged]
    decide
  exact ⟨hfound, (find_refined [regularFace, boldFace] "foo").2.2 _ _ _ hfound (by decide)⟩

end Catalog

end FontCatalog
