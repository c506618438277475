import FontCatalog.Proofs.Text.Casing

/-! The keys of names that differ in case. The exact key and the family key lower a name as a text, the
loose key lowers its letters one by one. The two ways part at the capital sigma, which ends a word as the
final sigma, and at the dotted capital I, whose dot is no letter of the lower case. So names with one exact
key have one loose key just where they have final sigmas and dotted capital I's at the same places. -/
namespace FontCatalog.Name
set_option autoImplicit false
open FontCatalog.Text

/-- The final sigma and the dotted capital I, told apart from all other letters. -/
def caseMark (c : Char) : Option Char := if c = '\u0130' ∨ c = 'ς' then some c else none

/-- The marks of the letters and numbers of a name. -/
def caseMarks (name : String) : List (Option Char) := (name.toList.filter isAlphanumeric).map caseMark

/-! ## The loose key -/

/-- What the loose key has of a letter that is `d` in the lower case of a text. -/
theorem lowerChar_of_foldsTo {c d : Char} (h : FoldsTo c d) :
    (caseMark c = some '\u0130' ∧ d = 'i' ∧ lowerChar c = ['i', '\u0307']) ∨
      (caseMark c = some 'ς' ∧ d = 'ς' ∧ lowerChar c = ['ς']) ∨
      (caseMark c = none ∧ d = 'ς' ∧ lowerChar c = ['σ']) ∨
      (caseMark c = none ∧ d ≠ 'ς' ∧ lowerChar c = [d]) := by
  have hdotted : lowerChar '\u0130' = ['i', '\u0307'] := by decide
  have hsigma : lowerChar 'Σ' = ['σ'] := by decide
  have hfinal : lowerChar 'ς' = ['ς'] := by decide
  cases h with
  | dotted => exact .inl ⟨by decide, rfl, hdotted⟩
  | sigma => exact .inr (.inr (.inr ⟨by decide, by decide, hsigma⟩))
  | finalSigma => exact .inr (.inr (.inl ⟨by decide, rfl, hsigma⟩))
  | plain hne hlower hlast =>
    by_cases hc : c = 'ς'
    · subst hc
      have hd : d = 'ς' := by simpa [hfinal] using hlower.symm
      exact .inr (.inl ⟨by decide, hd, hfinal⟩)
    · have hmark : caseMark c = none := if_neg (not_or.2 ⟨hne, hc⟩)
      exact .inr (.inr (.inr ⟨hmark, fun hd => hc (hlast hd), hlower⟩))

/-- The mark of a letter by its lower case in a text, `d`, and the loose key from that letter on. -/
def markAt (d : Char) (key : List Char) : Option Char :=
  if d = 'i' ∧ key[1]? = some '\u0307' then some '\u0130'
  else if d = 'ς' ∧ key.head? = some 'ς' then some 'ς' else none

/-- What the loose key has of a letter by its lower case in a text and its mark. -/
def keyOf (d : Char) (mark : Option Char) : List Char :=
  if mark = some '\u0130' then ['i', '\u0307'] else if mark = none ∧ d = 'ς' then ['σ'] else [d]

theorem lowerChar_eq_keyOf {c d : Char} (h : FoldsTo c d) : lowerChar c = keyOf d (caseMark c) := by
  rcases lowerChar_of_foldsTo h with ⟨hmark, hd, hkey⟩ | ⟨hmark, hd, hkey⟩ | ⟨hmark, hd, hkey⟩ | ⟨hmark, hd, hkey⟩ <;>
    simp [keyOf, hmark, hd, hkey]

/-- The dot of an i is not taken for the start of the next letter. -/
theorem caseMark_eq_markAt {c d : Char} (h : FoldsTo c d) {rest : List Char}
    (hrest : rest.head? ≠ some '\u0307') : caseMark c = markAt d (lowerChar c ++ rest) := by
  rcases lowerChar_of_foldsTo h with ⟨hmark, hd, hkey⟩ | ⟨hmark, hd, hkey⟩ | ⟨hmark, hd, hkey⟩ | ⟨hmark, hd, hkey⟩
  · simp [markAt, hmark, hd, hkey]
  · simp [markAt, hmark, hd, hkey]
  · simp [markAt, hmark, hd, hkey]
  · rw [List.head?_eq_getElem?] at hrest
    simp [markAt, hmark, hd, hkey, hrest]

theorem head_flatMap_lowerChar {cs : List Char} (hcs : ∀ c ∈ cs, isAlphanumeric c = true) :
    (cs.flatMap lowerChar).head? ≠ some '\u0307' := by
  have hdot : isAlphanumeric '\u0307' = false := by decide
  cases cs with
  | nil => exact nofun
  | cons c cs =>
    have hc := hcs c List.mem_cons_self
    rw [List.flatMap_cons]
    rcases lowerChar_cases c with ⟨-, hlower⟩ | ⟨-, d, hlower, hd⟩
    · simp [hlower]
    · rw [hlower]
      intro heq
      obtain rfl : d = '\u0307' := by simpa using heq
      rw [← hd.alphanumeric, hdot] at hc
      cases hc

/-- Letters that fold alike have one loose key just where their marks agree. -/
theorem flatMap_lowerChar_eq_iff {as bs ds : List Char} (ha : List.Forall₂ FoldsTo as ds)
    (hb : List.Forall₂ FoldsTo bs ds) (hla : ∀ c ∈ as, isAlphanumeric c = true)
    (hlb : ∀ c ∈ bs, isAlphanumeric c = true) :
    as.flatMap lowerChar = bs.flatMap lowerChar ↔ as.map caseMark = bs.map caseMark := by
  induction ha generalizing bs with
  | nil =>
    cases hb
    exact iff_of_true rfl rfl
  | @cons a d as ds had has ih =>
    cases hb with
    | @cons b _ bs _ hbd hbs =>
      rw [List.forall_mem_cons] at hla hlb
      have hrest := ih hbs hla.2 hlb.2
      have hma := caseMark_eq_markAt had (head_flatMap_lowerChar hla.2)
      have hmb := caseMark_eq_markAt hbd (head_flatMap_lowerChar hlb.2)
      have hka := lowerChar_eq_keyOf had
      have hkb := lowerChar_eq_keyOf hbd
      rw [List.flatMap_cons, List.flatMap_cons, List.map_cons, List.map_cons, List.cons.injEq, ← hrest]
      constructor
      · intro heq
        have hmark : caseMark a = caseMark b := by rw [hma, hmb, heq]
        have hkey : lowerChar a = lowerChar b := by rw [hka, hkb, hmark]
        rw [hkey] at heq
        exact ⟨hmark, List.append_cancel_left heq⟩
      · rintro ⟨hmark, htail⟩
        rw [hka, hkb, hmark, htail]

/-! ## Names of one exact key or family key -/

/-- The letters and numbers of a name in lower case, as a text. -/
def letters (name : String) : List Char := (lowercase name).toList.filter isAlphanumeric

theorem looseKey_eq_iff {a b : String} (h : letters a = letters b) :
    looseKey a = looseKey b ↔ caseMarks a = caseMarks b := by
  have ha : List.Forall₂ FoldsTo (a.toList.filter isAlphanumeric) (letters a) := by
    rw [letters, lowercase, String.toList_ofList]
    exact filter_lowerAfter [] a.toList
  have hb : List.Forall₂ FoldsTo (b.toList.filter isAlphanumeric) (letters a) := by
    rw [h, letters, lowercase, String.toList_ofList]
    exact filter_lowerAfter [] b.toList
  rw [looseKey, looseKey, String.ofList_inj]
  exact flatMap_lowerChar_eq_iff ha hb (fun _ hc => (List.mem_filter.1 hc).2)
    fun _ hc => (List.mem_filter.1 hc).2

theorem looseKey_eq_empty_iff (name : String) : looseKey name = "" ↔ letters name = [] := by
  have hfold := filter_lowerAfter [] name.toList
  rw [letters, lowercase, String.toList_ofList, looseKey, ← String.toList_inj, String.toList_ofList]
  cases hc : name.toList.filter isAlphanumeric with
  | nil =>
    rw [hc, List.forall₂_nil_left_iff] at hfold
    simp [hfold]
  | cons c cs =>
    rw [hc] at hfold
    cases hd : (lowerAfter [] name.toList).filter isAlphanumeric with
    | nil =>
      rw [hd] at hfold
      cases hfold
    | cons d ds => simp [lowerChar_ne_nil]

theorem isBlankText_of_looseKey {name : String} (h : looseKey name ≠ "") : isBlankText name = false := by
  rw [Bool.eq_false_iff]
  intro hblank
  apply h
  have hnone : name.toList.filter isAlphanumeric = [] := by
    rw [List.filter_eq_nil_iff]
    intro c hc
    rw [isAlphanumeric_of_isBlank (List.all_eq_true.1 hblank c hc)]
    exact Bool.false_ne_true
  rw [looseKey, hnone]
  rfl

/-- The family key is the exact key with single spaces. -/
theorem familyKey_eq (name : String) : familyKey name = normalizeBlanks (exactKey name) := by
  rw [familyKey, normalizeBlanks, normalizeBlanks, exactKey, lowercase, lowercase, String.toList_ofList,
    String.toList_ofList, lowerAfter_collapse]

theorem letters_of_exactKey {a b : String} (h : exactKey a = exactKey b) : letters a = letters b := by
  rw [letters, letters]
  exact congrArg (·.toList.filter isAlphanumeric) h

theorem letters_of_familyKey {a b : String} (h : familyKey a = familyKey b) : letters a = letters b := by
  have hletters (name : String) : letters name = (familyKey name).toList.filter isAlphanumeric := by
    rw [familyKey_eq, normalizeBlanks, String.toList_ofList, filter_collapse]
    rfl
  rw [hletters, hletters, h]

theorem familyKey_of_exactKey {a b : String} (h : exactKey a = exactKey b) : familyKey a = familyKey b := by
  rw [familyKey_eq, familyKey_eq, h]

theorem isBlankText_of_familyKey {a b : String} (h : familyKey a = familyKey b) :
    isBlankText a = isBlankText b := by
  rw [Bool.eq_iff_iff, ← familyKey_eq_empty_iff, ← familyKey_eq_empty_iff, h]

/-- Names of one exact key and one loose key are equally long in UTF-16. -/
theorem units16_of_exactKey {a b : String} (h : exactKey a = exactKey b) (hmarks : caseMarks a = caseMarks b) :
    units16 a = units16 b := by
  have hdotted : isAlphanumeric '\u0130' = true := by decide
  have hcount (name : String) : (caseMarks name).count (some '\u0130') = name.toList.count '\u0130' := by
    rw [caseMarks, List.count, List.countP_map, List.countP_filter, List.count]
    apply List.countP_congr
    intro c hc
    by_cases hd : c = '\u0130'
    · simp [hd, caseMark, hdotted]
    · by_cases hs : c = 'ς' <;> simp [hd, hs, caseMark]
  have hunits := congrArg units16 h
  rw [exactKey, exactKey, units16_lowercase, units16_lowercase, ← hcount, ← hcount, hmarks] at hunits
  omega

end FontCatalog.Name
