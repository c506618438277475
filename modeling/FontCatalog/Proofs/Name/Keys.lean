import FontCatalog.Name

/-! When the keys of a name are empty: the exact key only for the empty name, the family key only for a
name of white space. -/
namespace FontCatalog
set_option autoImplicit false

namespace Text

/-! ## Lower case -/

theorem lowerChar_ne_nil (c : Char) : lowerChar c ≠ [] := by
  unfold lowerChar
  split
  · exact List.cons_ne_nil _ _
  · split <;> exact List.cons_ne_nil _ _

theorem lowerBetween_ne_nil (before : List Char) (c : Char) (after : List Char) :
    lowerBetween before c after ≠ [] := by
  unfold lowerBetween
  split
  · split <;> exact List.cons_ne_nil _ _
  · exact lowerChar_ne_nil c

theorem lowercase_eq_empty_iff (s : String) : lowercase s = "" ↔ s = "" := by
  have hl : lowerAfter [] s.toList = [] ↔ s.toList = [] := by
    cases s.toList with
    | nil => simp [lowerAfter]
    | cons c cs => simp [lowerAfter, lowerBetween_ne_nil]
  simpa [lowercase] using hl

/-! ## Words -/

/-- Nothing is gathered from the right exactly where all is blank. -/
theorem foldr_wordStep_eq_nil_iff (cs : List Char) :
    cs.foldr wordStep ([], []) = ([], []) ↔ cs.all isBlank = true := by
  induction cs with
  | nil => simp
  | cons c cs ih =>
    rw [List.foldr_cons, List.all_cons, Bool.and_eq_true, ← ih]
    obtain ⟨w, ws⟩ := cs.foldr wordStep ([], [])
    by_cases hc : isBlank c = true
    · cases w <;> simp [wordStep, hc]
    · simp [wordStep, hc]

theorem words_ne_nil (cs : List Char) : ∀ w ∈ words cs, w ≠ [] := by
  have hdone : ∀ w ∈ (cs.foldr wordStep ([], [])).2, w ≠ [] := by
    induction cs with
    | nil => simp
    | cons c cs ih =>
      rw [List.foldr_cons]
      generalize cs.foldr wordStep ([], []) = s at ih ⊢
      obtain ⟨w, ws⟩ := s
      by_cases hc : isBlank c = true
      · cases w with
        | nil => simpa [wordStep, hc] using ih
        | cons d w => simpa [wordStep, hc] using ih
      · simpa [wordStep, hc] using ih
  unfold words
  generalize cs.foldr wordStep ([], []) = s at hdone ⊢
  obtain ⟨w, ws⟩ := s
  cases w with
  | nil => simpa using hdone
  | cons d w => simpa using hdone

theorem words_eq_nil_iff (cs : List Char) : words cs = [] ↔ cs.all isBlank = true := by
  rw [← foldr_wordStep_eq_nil_iff]
  unfold words
  generalize cs.foldr wordStep ([], []) = s
  obtain ⟨w, ws⟩ := s
  cases w <;> simp

theorem collapse_eq_nil_iff (cs : List Char) : collapse cs = [] ↔ cs.all isBlank = true := by
  rw [← words_eq_nil_iff]
  unfold collapse
  have hw := words_ne_nil cs
  cases h : words cs with
  | nil => simp [List.intercalate]
  | cons w ws =>
    rw [h] at hw
    have hne : w ≠ [] := hw w List.mem_cons_self
    cases ws with
    | nil => simpa [List.intercalate] using hne
    | cons w' ws => simp [List.intercalate, hne]

end Text

namespace Name

/-! ## Keys -/

theorem exactKey_ne_empty {name : String} (h : Text.isBlankText name = false) :
    exactKey name ≠ "" := by
  intro he
  rw [exactKey, Text.lowercase_eq_empty_iff] at he
  subst he
  cases h

theorem familyKey_eq_empty_iff (name : String) :
    familyKey name = "" ↔ Text.isBlankText name = true := by
  rw [familyKey, Text.lowercase_eq_empty_iff, normalizeBlanks, ← String.toList_inj,
    String.toList_ofList, Text.isBlankText, ← Text.collapse_eq_nil_iff]
  rfl

theorem familyKey_ne_empty {name : String} (h : Text.isBlankText name = false) :
    familyKey name ≠ "" := by
  intro he
  rw [familyKey_eq_empty_iff, h] at he
  cases he

end Name

end FontCatalog
