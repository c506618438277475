import FontCatalog.Proofs.Catalog.Merging
import FontCatalog.Proofs.Match.Folding

/-! How good an answer is: the higher the rung, the better. A rung has a face if one of the faces passes its
test, so an answer is as good as the best one that a single face would give. More faces never make it worse. -/
namespace FontCatalog
set_option autoImplicit false

/-- The place of a rung in the ladder, counted from the best. -/
def Tier.rank : Tier → Nat
  | .exactTypographic => 0
  | .exactWin32 => 1
  | .fuzzy => 2
  | .fullName => 3

/-- The place of an answer, an answer without a face being the worst. -/
def Answer.rank : Answer → Nat
  | .found _ t => t.rank
  | .notFound => 4

theorem Tier.rank_lt (t : Tier) : t.rank < 4 := by cases t <;> decide

theorem Answer.rank_eq (a : Answer) : a.rank = (a.tier?.map Tier.rank).getD 4 := by cases a <;> rfl

theorem Answer.rank_le (a : Answer) : a.rank ≤ 4 := by
  cases a with
  | found f t => exact t.rank_lt.le
  | notFound => exact Nat.le_refl 4

namespace Ladder
open Name

/-! ## Tests -/

def bears (names : Face → List String) (key : String → String) (name : String) (f : Face) : Bool :=
  (names f).any fun n => key n == key name

def begins (names : Face → List String) (name : String) (f : Face) : Bool :=
  (names f).any fun n => (exactKey name).toList.isPrefixOf (exactKey n).toList

/-- What the rungs of family names ask of a face. -/
def familyTests (name : String) : List (Tier × (Face → Bool)) :=
  [(.exactTypographic, bears Face.typographicNames exactKey name),
    (.exactWin32, bears Face.win32Names exactKey name)] ++
  (if looseKey name = "" then [] else
    [(.fuzzy, bears Face.typographicNames looseKey name), (.fuzzy, bears Face.win32Names looseKey name)]) ++
  if looseKey name ≠ "" ∧ Text.units16 name = 31 then
    [(.fuzzy, begins Face.typographicNames name), (.fuzzy, begins Face.win32Names name)]
  else []

def nameTest (name : String) (f : Face) : Bool :=
  bears Face.postscriptNames familyKey name f || bears Face.fullNames familyKey name f

/-- What all rungs ask of a face. -/
def tests (name : String) : List (Tier × (Face → Bool)) := familyTests name ++ [(.fullName, nameTest name)]

theorem tests_ascending (name : String) : (tests name).Pairwise fun r s => r.1.rank ≤ s.1.rank := by
  unfold tests familyTests
  split_ifs <;> simp [Tier.rank]

theorem alike_eq_filter (names : Face → List String) (key : String → String) (name : String) (faces : List Face) :
    alike names key name faces = faces.filter (bears names key name) := rfl

theorem beginning_eq_filter (names : Face → List String) (name : String) (faces : List Face) :
    beginning names name faces = faces.filter (begins names name) := rfl

theorem familyRungs_eq (name : String) (faces : List Face) :
    familyRungs name faces = (familyTests name).map fun r => (r.1, faces.filter r.2) := by
  unfold familyRungs familyTests
  split_ifs <;> simp only [List.map_append, List.map_cons, List.map_nil, alike_eq_filter, beginning_eq_filter]

theorem filter_ne_nil_iff (test : Face → Bool) (faces : List Face) :
    decide (faces.filter test ≠ []) = faces.any test := by
  rw [Bool.eq_iff_iff]
  simp

theorem nameRung_ne_nil_iff (name : String) (faces : List Face) :
    nameRung name faces ≠ [] ↔ faces.any (nameTest name) = true := by
  have hboth : alike Face.postscriptNames familyKey name faces ++ alike Face.fullNames familyKey name faces ≠ [] ↔
      faces.any (nameTest name) = true := by
    rw [List.any_eq_true]
    constructor
    · intro h
      obtain ⟨f, hf⟩ := List.exists_mem_of_ne_nil _ h
      rcases List.mem_append.1 hf with hf | hf
      · exact ⟨f, (List.mem_filter.1 hf).1, Bool.or_eq_true_iff.2 (.inl (List.mem_filter.1 hf).2)⟩
      · exact ⟨f, (List.mem_filter.1 hf).1, Bool.or_eq_true_iff.2 (.inr (List.mem_filter.1 hf).2)⟩
    · rintro ⟨f, hf, htest⟩
      rcases Bool.or_eq_true_iff.1 htest with htest | htest
      · exact List.ne_nil_of_mem (List.mem_append_left _ (List.mem_filter.2 ⟨hf, htest⟩))
      · exact List.ne_nil_of_mem (List.mem_append_right _ (List.mem_filter.2 ⟨hf, htest⟩))
  rw [← hboth, nameRung]
  split
  · rfl
  · next hsuited =>
    -- What suits the outlines is among all, so that neither is empty.
    refine iff_of_true hsuited fun hall => hsuited ?_
    obtain ⟨hpostscript, hfull⟩ := List.append_eq_nil_iff.1 hall
    simp [hpostscript, hfull]

/-! ## Ranks -/

/-- An answer comes from the first rung of which some face passes the test. -/
theorem tier?_answer {q : Query} (hblank : Text.isBlankText (undecorate q.family) = false) (faces : List Face) :
    (answer faces q).tier? = ((tests (undecorate q.family)).find? fun r => faces.any r.2).map (·.1) := by
  have hrungs : (familyRungs (undecorate q.family) faces).find? (·.2 ≠ []) =
      ((familyTests (undecorate q.family)).find? fun r => faces.any r.2).map fun r => (r.1, faces.filter r.2) := by
    rw [familyRungs_eq, List.find?_map]
    simp only [Function.comp_def, filter_ne_nil_iff]
  rw [tests, List.find?_append]
  cases hfamily : (familyTests (undecorate q.family)).find? fun r => faces.any r.2 with
  | some r =>
    rw [hfamily, Option.map_some] at hrungs
    have hany : faces.any r.2 = true := List.find?_some (p := fun r : Tier × (Face → Bool) => faces.any r.2) hfamily
    have hne : faces.filter r.2 ≠ [] := by
      rw [← filter_ne_nil_iff] at hany
      exact of_decide_eq_true hany
    obtain ⟨f, hf⟩ := Option.isSome_iff_exists.1 (pick_isSome q.style hne)
    simp only [answer, asked_eq, hblank, hrungs, hf, Bool.false_eq_true, if_false]
    rfl
  | none =>
    rw [hfamily, Option.map_none] at hrungs
    have hname := nameRung_ne_nil_iff (undecorate q.family) faces
    simp only [answer, asked_eq, hblank, hrungs, Bool.false_eq_true, if_false, Option.none_or, List.find?_cons]
    cases hnames : nameRung (undecorate q.family) faces with
    | nil =>
      have hnone : faces.any (nameTest (undecorate q.family)) = false := by
        rw [Bool.eq_false_iff, ne_eq, ← hname, hnames]
        exact fun h => h rfl
      rw [hnone]
      rfl
    | cons f rest =>
      have hsome : faces.any (nameTest (undecorate q.family)) = true := by
        rw [← hname, hnames]
        exact List.cons_ne_nil f rest
      rw [hsome]
      rfl

theorem rank_answer_le_iff_test {q : Query} (hblank : Text.isBlankText (undecorate q.family) = false)
    (faces : List Face) {k : Nat} (hk : k < 4) :
    (answer faces q).rank ≤ k ↔
      ∃ r ∈ tests (undecorate q.family), r.1.rank ≤ k ∧ ∃ f ∈ faces, r.2 f = true := by
  rw [Answer.rank_eq, tier?_answer hblank]
  cases hfirst : (tests (undecorate q.family)).find? fun r => faces.any r.2 with
  | none =>
    rw [List.find?_eq_none] at hfirst
    refine iff_of_false (Nat.not_le.2 hk) ?_
    rintro ⟨r, hr, -, hfaces⟩
    exact hfirst r hr (List.any_eq_true.2 hfaces)
  | some r =>
    obtain ⟨hr, before, after, htests, hbefore⟩ := List.find?_eq_some_iff_append.1 hfirst
    constructor
    · intro hrank
      exact ⟨r, List.mem_of_find?_eq_some hfirst, hrank, List.any_eq_true.1 hr⟩
    · rintro ⟨s, hs, hrank, hfaces⟩
      -- No rung before the first one has a face, so this one comes later and is no better.
      refine Nat.le_trans ?_ hrank
      have hordered := tests_ascending (undecorate q.family)
      rw [htests] at hs hordered
      rcases List.mem_append.1 hs with hs | hs
      · have hnone := hbefore s hs
        rw [List.any_eq_true.2 hfaces] at hnone
        cases hnone
      · rcases List.mem_cons.1 hs with rfl | hs
        · exact Nat.le_refl _
        · exact (List.pairwise_cons.1 (List.pairwise_append.1 hordered).2.1).1 s hs

/-- An answer is as good as the best one that a single face would give. -/
theorem rank_answer_le_iff (faces : List Face) (q : Query) {k : Nat} (hk : k < 4) :
    (answer faces q).rank ≤ k ↔ ∃ f ∈ faces, (answer [f] q).rank ≤ k := by
  cases hblank : Text.isBlankText (undecorate q.family) with
  | true =>
    have hworst (faces : List Face) : (answer faces q).rank = 4 := by simp [answer, asked_eq, hblank, Answer.rank]
    simp [hworst, Nat.not_le.2 hk]
  | false =>
    simp only [rank_answer_le_iff_test hblank _ hk, List.mem_singleton, exists_eq_left]
    constructor
    · rintro ⟨r, hr, hrank, f, hf, htest⟩
      exact ⟨f, hf, r, hr, hrank, htest⟩
    · rintro ⟨f, hf, r, hr, hrank, htest⟩
      exact ⟨r, hr, hrank, f, hf, htest⟩

theorem rank_answer_mono {F G : List Face} (h : F ⊆ G) (q : Query) : (answer G q).rank ≤ (answer F q).rank := by
  by_cases hrank : (answer F q).rank < 4
  · obtain ⟨f, hf, hle⟩ := (rank_answer_le_iff F q hrank).1 (Nat.le_refl _)
    exact (rank_answer_le_iff G q hrank).2 ⟨f, h hf, hle⟩
  · exact (answer G q).rank_le.trans (Nat.not_lt.1 hrank)

theorem rank_answer_append (F G : List Face) (q : Query) :
    (answer (F ++ G) q).rank = min (answer F q).rank (answer G q).rank := by
  apply Nat.le_antisymm
  · exact Nat.le_min.2 ⟨rank_answer_mono (List.subset_append_left F G) q,
      rank_answer_mono (List.subset_append_right F G) q⟩
  · by_cases hrank : (answer (F ++ G) q).rank < 4
    · obtain ⟨f, hf, hle⟩ := (rank_answer_le_iff (F ++ G) q hrank).1 (Nat.le_refl _)
      rcases List.mem_append.1 hf with hf | hf
      · exact (Nat.min_le_left _ _).trans ((rank_answer_le_iff F q hrank).2 ⟨f, hf, hle⟩)
      · exact (Nat.min_le_right _ _).trans ((rank_answer_le_iff G q hrank).2 ⟨f, hf, hle⟩)
    · exact ((Nat.min_le_left _ _).trans (answer F q).rank_le).trans (Nat.not_lt.1 hrank)

end Ladder

/-! ## Merges -/

namespace Catalog
open Ladder

/-- No identity has a face in both. -/
def Apart (c d : Catalog) : Prop :=
  ∀ f ∈ c.faces.toList, ∀ g ∈ d.faces.toList, f.id.same g.id = false

theorem mem_merge_iff {cs : List Catalog} {f : Face} :
    f ∈ (merge cs).faces.toList ↔ earliest f.id cs = some f := by
  rw [← find?_merge]
  exact (arrange_ascending _).mem_iff_find? f

theorem earliest_pair (i : FaceId) (c d : Catalog) :
    earliest i [c, d] =
      (c.faces.toList.find? (·.id.same i)).or (d.faces.toList.find? (·.id.same i)) := by
  rw [← List.singleton_append, earliest_append]
  simp [earliest]

theorem mem_merge_left {F G : List Face} {f : Face} (h : f ∈ (build F).faces.toList) :
    f ∈ (merge [build F, build G]).faces.toList := by
  have hfirst := ((arrange_ascending F).mem_iff_find? f).1 h
  rw [mem_merge_iff, earliest_pair]
  exact congrArg (Option.or · _) hfirst

theorem mem_merge_of_apart {F G : List Face} (h : (build F).Apart (build G)) {f : Face} :
    f ∈ (merge [build F, build G]).faces.toList ↔
      f ∈ (build F).faces.toList ++ (build G).faces.toList := by
  rw [List.mem_append]
  constructor
  · intro hf
    rw [mem_merge_iff, earliest_pair, Option.or_eq_some_iff] at hf
    exact hf.imp List.mem_of_find?_eq_some fun h => List.mem_of_find?_eq_some h.2
  · rintro (hf | hf)
    · exact mem_merge_left hf
    · have hnone : (build F).faces.toList.find? (·.id.same f.id) = none := by
        rw [List.find?_eq_none]
        intro g hg
        rw [h g hg f hf]
        exact Bool.false_ne_true
      rw [mem_merge_iff, earliest_pair, hnone, Option.none_or]
      exact ((arrange_ascending G).mem_iff_find? f).1 hf

/-- Another catalog never makes an answer worse, and one with other identities makes it as good as the better
of both answers. -/
theorem find_merge_rank (F G : List Face) (q : Query) :
    ((merge [build F, build G]).find q).rank ≤ ((build F).find q).rank ∧
    ((build F).Apart (build G) →
      ((merge [build F, build G]).find q).rank = min ((build F).find q).rank ((build G).find q).rank) := by
  have hmerge : (merge [build F, build G]).find q = answer (merge [build F, build G]).faces.toList q :=
    find_build _ q
  rw [hmerge, find_build, find_build]
  refine ⟨rank_answer_mono (fun f hf => mem_merge_left hf) q, fun h => ?_⟩
  rw [← rank_answer_append]
  apply Nat.le_antisymm
  · exact rank_answer_mono (fun f hf => (mem_merge_of_apart h).2 hf) q
  · exact rank_answer_mono (fun f hf => (mem_merge_of_apart h).1 hf) q

def fullNamed : Face := { fullName := "Foo", path := .ofString "/f/a.ttf", index := 0 }

def familyNamed : Face :=
  { typographicFamilies := [{ name := "FOO" }], path := .ofString "/f/a.ttf", index := 1 }

theorem find_merge_rank_others :
    (build [fullNamed]).Apart (build [familyNamed]) ∧
      ((merge [build [fullNamed], build [familyNamed]]).find ⟨"foo", {}⟩).rank =
        min ((build [fullNamed]).find ⟨"foo", {}⟩).rank ((build [familyNamed]).find ⟨"foo", {}⟩).rank := by
  have hapart : (build [fullNamed]).Apart (build [familyNamed]) := by
    rw [build_singleton, build_singleton]
    unfold Apart
    decide
  exact ⟨hapart, (find_merge_rank _ _ _).2 hapart⟩

end Catalog

end FontCatalog
