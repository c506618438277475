import FontCatalog.Proofs.Match.Folding

/-! Requests by a name that was cut. In lower case the beginning of a name is the beginning of the name, but
for one case: a cut behind the capital sigma of a word makes a final sigma of it. So a family is found by the
first 31 units of its name wherever these hold a letter or a number. -/
namespace FontCatalog
set_option autoImplicit false

namespace Text

/-! ## The lower case of a cut text -/

/-- Whether the end of `cs`, which follows `before` (nearest first), cuts a word behind a capital sigma: the
word goes on in `rest`. -/
def cutsSigma (rest before : List Char) : List Char → Bool
  | [] => false
  | c :: cs =>
    c = 'Σ' && meetsCased before && cs.all isCaseIgnorable && meetsCased rest || cutsSigma rest (c :: before) cs

theorem meetsCased_append (cs rest : List Char) :
    meetsCased (cs ++ rest) = if cs.all isCaseIgnorable then meetsCased rest else meetsCased cs := by
  induction cs with
  | nil => rfl
  | cons c cs ih => cases hc : isCaseIgnorable c <;> simp [meetsCased, hc, ih]

theorem meetsCased_of_all {cs : List Char} (h : cs.all isCaseIgnorable = true) : meetsCased cs = false := by
  have happend := meetsCased_append cs []
  rwa [List.append_nil, if_pos h] at happend

/-- What follows a text matters to a character of it only if that is a sigma which the end of the text cuts. -/
theorem lowerBetween_append (before : List Char) (c : Char) (cs rest : List Char) :
    lowerBetween before c (cs ++ rest) =
      if c = 'Σ' && meetsCased before && cs.all isCaseIgnorable && meetsCased rest then ['σ']
      else lowerBetween before c cs := by
  by_cases hc : c = 'Σ'
  · by_cases hall : cs.all isCaseIgnorable = true
    · have hnone := meetsCased_of_all hall
      cases hbefore : meetsCased before <;> cases hrest : meetsCased rest <;>
        simp [lowerBetween, hc, meetsCased_append, hall, hnone, hbefore, hrest]
    · simp [lowerBetween, hc, meetsCased_append, hall]
  · simp [lowerBetween, hc]

theorem lowerAfter_append {rest before cs : List Char} (h : cutsSigma rest before cs = false) :
    lowerAfter before (cs ++ rest) = lowerAfter before cs ++ lowerAfter (cs.reverse ++ before) rest := by
  induction cs generalizing before with
  | nil => rfl
  | cons c cs ih =>
    rw [cutsSigma, Bool.or_eq_false_iff] at h
    rw [List.cons_append, lowerAfter, lowerBetween_append, h.1, ih h.2, lowerAfter]
    simp

/-- In lower case a text begins with its beginning just where the cut does not part a sigma from its word. -/
theorem lowerAfter_prefix_iff (before cs rest : List Char) :
    lowerAfter before cs <+: lowerAfter before (cs ++ rest) ↔ cutsSigma rest before cs = false := by
  constructor
  · induction cs generalizing before with
    | nil => exact fun _ => rfl
    | cons c cs ih =>
      intro hbegins
      rw [List.cons_append, lowerAfter, lowerAfter, lowerBetween_append] at hbegins
      cases hcut : c = 'Σ' && meetsCased before && cs.all isCaseIgnorable && meetsCased rest with
      | false =>
        rw [hcut, if_neg Bool.false_ne_true, List.prefix_append_right_inj] at hbegins
        rw [cutsSigma, hcut, ih _ hbegins]
        rfl
      | true =>
        -- The sigma is a final one where the text ends with it, and none where the word goes on.
        rw [hcut, if_pos rfl] at hbegins
        simp only [Bool.and_eq_true, decide_eq_true_eq] at hcut
        obtain ⟨⟨⟨rfl, hbefore⟩, hall⟩, -⟩ := hcut
        have hfinal : lowerBetween before 'Σ' cs = ['ς'] := by
          simp [lowerBetween, hbefore, meetsCased_of_all hall]
        rw [hfinal, List.singleton_append, List.singleton_append, List.cons_prefix_cons] at hbegins
        exact absurd hbegins.1 (by decide)
  · intro h
    rw [lowerAfter_append h]
    exact List.prefix_append _ _

end Text

namespace Name

theorem exactKey_prefix_iff (name rest : String) :
    (exactKey name).toList <+: (exactKey (name ++ rest)).toList ↔
      Text.cutsSigma rest.toList [] name.toList = false := by
  rw [exactKey, exactKey, Text.lowercase, Text.lowercase, String.toList_ofList, String.toList_ofList,
    String.toList_append, Text.lowerAfter_prefix_iff]

end Name

/-! ## Requests -/

namespace Ladder
open Name

theorem mem_beginning {names : Face → List String} {name n : String} {faces : List Face} {f : Face}
    (hf : f ∈ faces) (hn : n ∈ names f) (hbegins : (exactKey name).toList <+: (exactKey n).toList) :
    f ∈ beginning names name faces :=
  List.mem_filter.2 ⟨hf, List.any_eq_true.2 ⟨n, hn, List.isPrefixOf_iff_prefix.2 hbegins⟩⟩

/-- A name of 31 units with a letter or a number is met by the families that begin with it. -/
theorem answer_of_beginning {faces : List Face} {q : Query} {l : Lookup} (hl : l = .typographic ∨ l = .win32)
    {f : Face} (hf : f ∈ faces) {n : String} (hn : n ∈ l.names f)
    (hbegins : (exactKey (undecorate q.family)).toList <+: (exactKey n).toList)
    (hunits : Text.units16 (undecorate q.family) = truncatedUnits) (hletters : looseKey (undecorate q.family) ≠ "") :
    ∃ f t, answer faces q = .found f t ∧ t ≠ .fullName := by
  have hmem := mem_beginning hf hn hbegins
  have hrung : (Tier.fuzzy, beginning l.names (undecorate q.family) faces) ∈
      familyRungs (undecorate q.family) faces := by
    rcases hl with rfl | rfl <;> simp [familyRungs, Lookup.names, hletters, hunits, truncatedUnits]
  exact answer_of_rung (isBlankText_of_looseKey hletters) hrung (List.ne_nil_of_mem hmem)

end Ladder

namespace Catalog
open Name

theorem find_truncated (faces : List Face) (l : Lookup) (hl : l = .typographic ∨ l = .win32) (f : Face)
    (hf : f ∈ (build faces).faces) (name rest : String) (hn : name ++ rest ∈ l.names f)
    (hunits : Text.units16 name = truncatedUnits) (hblank : Text.isBlankText name = false)
    (hplain : name.toList.head? ≠ some '@') (hletters : rest = "" ∨ looseKey name ≠ "")
    (hcut : Text.cutsSigma rest.toList [] name.toList = false) (style : StyleHints) :
    ∃ g t, (build faces).find ⟨name, style⟩ = .found g t ∧ t ≠ .fullName := by
  have hmem : f ∈ arrange faces := Array.mem_toList_iff.2 hf
  have hsame := undecorate_eq_self hplain
  rw [find_arrange]
  rcases hletters with rfl | hletters
  · rw [String.append_empty] at hn
    have hkey : familyKey (undecorate name) = familyKey name := by rw [hsame]
    have hexact : exactKey (undecorate name) = exactKey name := by rw [hsame]
    exact Ladder.answer_of_respells (q := ⟨name, style⟩) hl hmem hn hkey (familyKey_ne_empty hblank) (.inl hexact)
  · have hbegins := (exactKey_prefix_iff name rest).2 hcut
    rw [← hsame] at hunits hletters
    exact Ladder.answer_of_beginning (q := ⟨name, style⟩) hl hmem hn (by rwa [hsame]) hunits hletters

def longName : String := "Source Han Sans Old Style Extra Condensed"

theorem find_truncated_long :
    "Source Han Sans Old Style Extra" ++ " Condensed" ∈ (Ladder.faceNamed longName).typographicNames ∧
    Text.units16 "Source Han Sans Old Style Extra" = truncatedUnits ∧
    looseKey "Source Han Sans Old Style Extra" ≠ "" ∧
    Text.cutsSigma " Condensed".toList [] "Source Han Sans Old Style Extra".toList = false ∧
    ∃ g t, (build [Ladder.faceNamed longName]).find ⟨"Source Han Sans Old Style Extra", { bold := some true }⟩ =
      .found g t ∧ t ≠ .fullName := by
  have hmem : Ladder.faceNamed longName ∈ (build [Ladder.faceNamed longName]).faces := by
    rw [build_singleton]
    exact Array.mem_singleton_self _
  have hname : "Source Han Sans Old Style Extra" ++ " Condensed" ∈ (Ladder.faceNamed longName).typographicNames := by
    decide
  have hletters : looseKey "Source Han Sans Old Style Extra" ≠ "" := by decide
  have hcut : Text.cutsSigma " Condensed".toList [] "Source Han Sans Old Style Extra".toList = false := by
    decide
  exact ⟨hname, by decide, hletters, hcut,
    find_truncated _ .typographic (.inl rfl) _ hmem _ _ hname (by decide) (by decide) (by decide) (.inr hletters) hcut _⟩

def asterisks (count : Nat) : String := String.ofList (List.replicate count '*')

/-- The beginning of a name is no name for it without letters and numbers. -/
theorem find_cutAsterisks :
    Ladder.faceNamed (asterisks 32) ∈ (build [Ladder.faceNamed (asterisks 32)]).faces ∧
    asterisks 32 ∈ (Ladder.faceNamed (asterisks 32)).typographicNames ∧
    (asterisks 31).toList <+: (asterisks 32).toList ∧ Text.units16 (asterisks 31) = truncatedUnits ∧
    Text.isBlankText (asterisks 31) = false ∧ (asterisks 31).toList.head? ≠ some '@' ∧
    (build [Ladder.faceNamed (asterisks 32)]).find ⟨asterisks 31, {}⟩ = .notFound := by
  rw [find_singleton, build_singleton]
  exact ⟨Array.mem_singleton_self _, by decide⟩

end Catalog

end FontCatalog
