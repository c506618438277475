import FontCatalog.Proofs.Catalog.Lookups
import FontCatalog.Proofs.Match.Ladder
import FontCatalog.Proofs.Name.Folding

/-! Requests that spell one family in several ways. What a request finds depends on the keys of its name
alone, and a family is found by its exact key or by its letters. So neither case nor white space matters,
with two exceptions: a name of neither letters nor numbers goes by its exact key only, and the final
sigma and the dotted capital I count as letters of their own. -/
namespace FontCatalog
set_option autoImplicit false

namespace Name

/-- Whether a name with the family key of `n` is taken for `n`: it has the exact key, or letters with the
same marks. -/
def Respells (name n : String) : Prop :=
  exactKey name = exactKey n ∨ looseKey n ≠ "" ∧ caseMarks name = caseMarks n

end Name

namespace Ladder
open Name

/-! ## Rungs by keys -/

section
variable {a b : String} (faces : List Face)

theorem alike_congr (names : Face → List String) {key : String → String} (h : key a = key b) :
    alike names key a faces = alike names key b faces := by
  rw [alike, h]
  rfl

theorem beginning_congr (names : Face → List String) (h : exactKey a = exactKey b) :
    beginning names a faces = beginning names b faces := by
  rw [beginning, h]
  rfl

theorem familyRungs_congr (hexact : exactKey a = exactKey b) (hloose : looseKey a = looseKey b)
    (hunits : Text.units16 a = Text.units16 b) : familyRungs a faces = familyRungs b faces := by
  unfold familyRungs
  rw [alike_congr faces _ hexact, alike_congr faces _ hexact, alike_congr faces _ hloose,
    alike_congr faces _ hloose, beginning_congr faces _ hexact, beginning_congr faces _ hexact, hloose, hunits]

theorem nameRung_congr (h : familyKey a = familyKey b) : nameRung a faces = nameRung b faces := by
  rw [nameRung, alike_congr faces _ h, alike_congr faces _ h]
  rfl

end

/-- Requests with one exact key and one loose key have one answer. -/
theorem answer_congr {a b : String} (hexact : exactKey (undecorate a) = exactKey (undecorate b))
    (hmarks : caseMarks (undecorate a) = caseMarks (undecorate b)) (faces : List Face) (style : StyleHints) :
    answer faces ⟨a, style⟩ = answer faces ⟨b, style⟩ := by
  have hloose := (looseKey_eq_iff (letters_of_exactKey hexact)).2 hmarks
  have hunits := units16_of_exactKey hexact hmarks
  have hfamily := familyKey_of_exactKey hexact
  have hblank := isBlankText_of_familyKey hfamily
  simp only [answer, asked_eq, hblank, familyRungs_congr faces hexact hloose hunits, nameRung_congr faces hfamily]

/-! ## Rungs that are not empty -/

theorem mem_alike {names : Face → List String} {key : String → String} {name n : String}
    {faces : List Face} {f : Face} (hf : f ∈ faces) (hn : n ∈ names f) (hkey : key n = key name) :
    f ∈ alike names key name faces :=
  List.mem_filter.2 ⟨hf, List.any_eq_true.2 ⟨n, hn, beq_iff_eq.2 hkey⟩⟩

theorem tier_of_mem_familyRungs {name : String} {faces : List Face} {r : Tier × List Face}
    (hr : r ∈ familyRungs name faces) : r.1 ≠ .fullName := by
  unfold familyRungs at hr
  simp only [List.mem_append, List.mem_cons, List.not_mem_nil, or_false] at hr
  rcases hr with ((rfl | rfl) | hr) | hr
  · exact nofun
  · exact nofun
  · split at hr
    · cases hr
    · simp only [List.mem_cons, List.not_mem_nil, or_false] at hr
      rcases hr with rfl | rfl <;> exact nofun
  · split at hr
    · simp only [List.mem_cons, List.not_mem_nil, or_false] at hr
      rcases hr with rfl | rfl <;> exact nofun
    · cases hr

theorem pick_isSome (s : StyleHints) {faces : List Face} (h : faces ≠ []) : (pick s faces).isSome = true := by
  unfold pick
  split
  · rfl
  · simpa using h

/-- A family rung with a face gives an answer, whatever style is wanted. -/
theorem answer_of_rung {faces : List Face} {q : Query} {r : Tier × List Face}
    (hblank : Text.isBlankText (undecorate q.family) = false)
    (hr : r ∈ familyRungs (undecorate q.family) faces) (hne : r.2 ≠ []) :
    ∃ f t, answer faces q = .found f t ∧ t ≠ .fullName := by
  have hsome : ((familyRungs (undecorate q.family) faces).find? (·.2 ≠ [])).isSome = true := by
    rw [List.find?_isSome]
    exact ⟨r, hr, decide_eq_true hne⟩
  obtain ⟨first, hfirst⟩ := Option.isSome_iff_exists.1 hsome
  have hfirstNe : first.2 ≠ [] := by simpa using List.find?_some hfirst
  obtain ⟨f, hf⟩ := Option.isSome_iff_exists.1 (pick_isSome q.style hfirstNe)
  refine ⟨f, first.1, ?_, tier_of_mem_familyRungs (List.mem_of_find?_eq_some hfirst)⟩
  simp only [answer, asked_eq, hblank, hfirst, hf, Bool.false_eq_true, if_false]

/-- The rungs that take a name for another one. -/
theorem answer_of_respells {faces : List Face} {q : Query} {l : Lookup} (hl : l = .typographic ∨ l = .win32)
    {f : Face} (hf : f ∈ faces) {n : String} (hn : n ∈ l.names f)
    (hkey : familyKey (undecorate q.family) = familyKey n) (hne : familyKey n ≠ "")
    (h : Respells (undecorate q.family) n) : ∃ f t, answer faces q = .found f t ∧ t ≠ .fullName := by
  have hblank : Text.isBlankText (undecorate q.family) = false := by
    rw [Bool.eq_false_iff, ne_eq, ← familyKey_eq_empty_iff, hkey]
    exact hne
  rcases h with hexact | ⟨hletters, hmarks⟩
  · have hmem : f ∈ alike l.names exactKey (undecorate q.family) faces := mem_alike hf hn hexact.symm
    have hrung : ∃ t, (t, alike l.names exactKey (undecorate q.family) faces) ∈
        familyRungs (undecorate q.family) faces := by
      rcases hl with rfl | rfl
      · exact ⟨.exactTypographic, by simp [familyRungs, Lookup.names]⟩
      · exact ⟨.exactWin32, by simp [familyRungs, Lookup.names]⟩
    obtain ⟨t, ht⟩ := hrung
    exact answer_of_rung hblank ht (List.ne_nil_of_mem hmem)
  · have hloose := (looseKey_eq_iff (letters_of_familyKey hkey)).2 hmarks
    have hsome : looseKey (undecorate q.family) ≠ "" := by rwa [hloose]
    have hmem : f ∈ alike l.names looseKey (undecorate q.family) faces := mem_alike hf hn hloose.symm
    have hrung : (Tier.fuzzy, alike l.names looseKey (undecorate q.family) faces) ∈
        familyRungs (undecorate q.family) faces := by
      rcases hl with rfl | rfl <;> simp [familyRungs, Lookup.names, hsome]
    exact answer_of_rung hblank hrung (List.ne_nil_of_mem hmem)

/-! ## A face that tells two names apart -/

theorem prefix_cons_self {c : Char} {k : List Char} (h : k <+: c :: k) : ∀ d ∈ k, d = c := by
  induction k with
  | nil => exact List.forall_mem_nil _
  | cons d k ih =>
    obtain ⟨hd, hk⟩ := List.cons_prefix_cons.1 h
    subst hd
    exact List.forall_mem_cons.2 ⟨rfl, ih hk⟩

/-- A face whose only name is `name`, a typographic family. -/
def faceNamed (name : String) : Face :=
  { typographicFamilies := [{ name }], path := .ofString "/f/a.ttf", index := 0 }

theorem alike_faceNamed (key : String → String) (n name : String) (h : key n ≠ key name) :
    alike Face.typographicNames key name [faceNamed n] = [] := by
  simp [alike, Face.typographicNames, faceNamed, h]

theorem alike_faceNamed_others (names : Face → List String) (key : String → String) {n name : String}
    (hnames : names (faceNamed n) = [""]) (hkey : key "" = "") (h : key name ≠ "") :
    alike names key name [faceNamed n] = [] := by
  simp [alike, hnames, hkey, Ne.symm h]

theorem answer_faceNamed_letters {n name : String} (hkey : looseKey n = looseKey name)
    (hne : looseKey name ≠ "") (style : StyleHints) (hplain : undecorate name = name) :
    ∃ f t, answer [faceNamed n] ⟨name, style⟩ = .found f t ∧ t ≠ .fullName := by
  have hmem : faceNamed n ∈ alike Face.typographicNames looseKey name [faceNamed n] :=
    mem_alike List.mem_cons_self List.mem_cons_self hkey
  have hrung : (Tier.fuzzy, alike Face.typographicNames looseKey name [faceNamed n]) ∈
      familyRungs (undecorate name) [faceNamed n] := by
    rw [hplain]
    simp [familyRungs, hne]
  have hblank : Text.isBlankText (undecorate name) = false := by
    rw [hplain]
    exact isBlankText_of_looseKey hne
  exact answer_of_rung (q := ⟨name, style⟩) hblank hrung (List.ne_nil_of_mem hmem)

theorem exactKey_space (name : String) : (exactKey (" " ++ name)).toList = ' ' :: (exactKey name).toList := by
  have hparted := Text.lowerAfter_append_blank Text.isBlank_space [] [] name.toList
  rw [exactKey, exactKey, Text.lowercase, Text.lowercase, String.toList_ofList, String.toList_ofList,
    String.toList_append]
  exact hparted

theorem looseKey_space (name : String) : looseKey (" " ++ name) = looseKey name := by
  have hspace : Text.isAlphanumeric ' ' = false := Text.isAlphanumeric_of_isBlank Text.isBlank_space
  simp [looseKey, hspace]

/-- With a space before it, a family is met by its letters only. -/
theorem answer_faceNamed_space {a b : String} (hexact : exactKey a = exactKey b)
    (hloose : looseKey a ≠ looseKey b) (hne : looseKey b ≠ "") (style : StyleHints)
    (hb : undecorate b = b) : answer [faceNamed (" " ++ a)] ⟨b, style⟩ = .notFound := by
  have hblank := isBlankText_of_looseKey hne
  have hexactNe := exactKey_ne_empty hblank
  have hfamilyNe := familyKey_ne_empty hblank
  have hlonger : exactKey (" " ++ a) ≠ exactKey b := by
    intro heq
    have hlength := congrArg (·.toList.length) heq
    simp [exactKey_space, hexact] at hlength
  have hapart : looseKey (" " ++ a) ≠ looseKey b := by
    intro heq
    exact hloose ((looseKey_space a).symm.trans heq)
  have hstem : ¬ (exactKey b).toList <+: ' ' :: (exactKey b).toList := by
    intro hprefix
    apply hne
    rw [looseKey_eq_empty_iff, letters, List.filter_eq_nil_iff]
    intro c hc
    rw [prefix_cons_self hprefix c hc]
    decide
  have htypographic : beginning Face.typographicNames b [faceNamed (" " ++ a)] = [] := by
    simpa [beginning, Face.typographicNames, faceNamed, exactKey_space, hexact] using hstem
  have hwin32 : beginning Face.win32Names b [faceNamed (" " ++ a)] = [] := by
    have hempty : exactKey "" = "" := rfl
    simpa [beginning, Face.win32Names, faceNamed, hempty] using hexactNe
  have hrungs : ∀ r ∈ familyRungs b [faceNamed (" " ++ a)], r.2 = [] := by
    simp only [familyRungs, alike_faceNamed _ _ _ hlonger, alike_faceNamed _ _ _ hapart, htypographic, hwin32,
      alike_faceNamed_others Face.win32Names exactKey rfl rfl hexactNe,
      alike_faceNamed_others Face.win32Names looseKey rfl rfl hne]
    split <;> split <;> simp
  have hnames : nameRung b [faceNamed (" " ++ a)] = [] := by
    simp [nameRung, alike_faceNamed_others Face.postscriptNames familyKey rfl rfl hfamilyNe,
      alike_faceNamed_others Face.fullNames familyKey rfl rfl hfamilyNe]
  have hnone : (familyRungs b [faceNamed (" " ++ a)]).find? (·.2 ≠ []) = none := by
    rw [List.find?_eq_none]
    intro r hr
    simpa using hrungs r hr
  simp only [answer, asked_eq, hb, hblank, hnone, hnames, Bool.false_eq_true, if_false]

end Ladder

namespace Catalog
open Name

theorem find_arrange (faces : List Face) (q : Query) : (build faces).find q = Ladder.answer (arrange faces) q :=
  find_ofArranged (arrange faces) q

theorem build_singleton (f : Face) : build [f] = ofArranged [f] := by
  rw [build, arrange_of_ascending _ (List.pairwise_singleton _ _)]

theorem find_singleton (f : Face) (q : Query) : (build [f]).find q = Ladder.answer [f] q := by
  rw [build_singleton, find_ofArranged]

/-- Requests that differ in case have one answer in every catalog just where their marks agree. -/
theorem find_congr_iff {a b : String} (hkey : exactKey a = exactKey b) (ha : a.toList.head? ≠ some '@')
    (hb : b.toList.head? ≠ some '@') :
    (∀ faces style, (build faces).find ⟨a, style⟩ = (build faces).find ⟨b, style⟩) ↔
      caseMarks a = caseMarks b := by
  have hplainA := undecorate_eq_self ha
  have hplainB := undecorate_eq_self hb
  have hletters := letters_of_exactKey hkey
  constructor
  · intro h
    by_contra hmarks
    have hloose : looseKey a ≠ looseKey b := mt (looseKey_eq_iff hletters).1 hmarks
    have hempty : looseKey a = "" ↔ looseKey b = "" := by
      rw [looseKey_eq_empty_iff, looseKey_eq_empty_iff, hletters]
    have hneB : looseKey b ≠ "" := fun hb => hloose ((hempty.2 hb).trans hb.symm)
    have hneA : looseKey a ≠ "" := mt hempty.1 hneB
    have hmissed := Ladder.answer_faceNamed_space hkey hloose hneB {} hplainB
    obtain ⟨f, t, hfound, -⟩ := Ladder.answer_faceNamed_letters (Ladder.looseKey_space a) hneA {} hplainA
    have heq := h [Ladder.faceNamed (" " ++ a)] {}
    rw [find_singleton, find_singleton, hmissed, hfound] at heq
    cases heq
  · intro hmarks faces style
    rw [find_arrange, find_arrange]
    exact Ladder.answer_congr (by rwa [hplainA, hplainB]) (by rwa [hplainA, hplainB]) _ style

theorem find_congr_capitals :
    exactKey "Noto Sans" = exactKey "NOTO SANS" ∧ caseMarks "Noto Sans" = caseMarks "NOTO SANS" ∧
    ∀ faces style, (build faces).find ⟨"Noto Sans", style⟩ = (build faces).find ⟨"NOTO SANS", style⟩ := by
  have hkey : exactKey "Noto Sans" = exactKey "NOTO SANS" := by decide +kernel
  have hmarks : caseMarks "Noto Sans" = caseMarks "NOTO SANS" := by decide +kernel
  exact ⟨hkey, hmarks, (find_congr_iff hkey (by decide) (by decide)).2 hmarks⟩

/-- The capital sigma at the end of a word is no final sigma to the loose key. -/
theorem find_capitalSigma :
    exactKey "ΟΔΟΣ!" = exactKey "οδος!" ∧
    (build [Ladder.faceNamed "οδος"]).find ⟨"ΟΔΟΣ!", {}⟩ = .notFound ∧
    (build [Ladder.faceNamed "οδος"]).find ⟨"οδος!", {}⟩ = .found (Ladder.faceNamed "οδος") .fuzzy := by
  rw [find_singleton, find_singleton]
  decide +kernel

/-- A family is found by every name that respells it, and so by every name that looks it up. -/
theorem find_respelled (faces : List Face) (l : Lookup) (hl : l = .typographic ∨ l = .win32) :
    (∀ q : Query, ∀ f ∈ (build faces).faces, ∀ n ∈ l.names f,
      familyKey (undecorate q.family) = familyKey n → familyKey n ≠ "" → Respells (undecorate q.family) n →
      ∃ g t, (build faces).find q = .found g t ∧ t ≠ .fullName) ∧
    ∀ name style, name.toList.head? ≠ some '@' → (l.run (build faces) name).faces ≠ [] →
      Respells name (l.run (build faces) name).name →
      ∃ g t, (build faces).find ⟨name, style⟩ = .found g t ∧ t ≠ .fullName := by
  constructor
  · intro q f hf n hn hkey hne hrespells
    have hmem : f ∈ arrange faces := Array.mem_toList_iff.2 hf
    rw [find_arrange]
    exact Ladder.answer_of_respells hl hmem hn hkey hne hrespells
  · intro name style hplain hgroup hrespells
    have hrun : l.run (build faces) name = l.search name (arrange faces) :=
      l.run_ofArranged (arrange faces) name
    have hlkey : l.key = familyKey := by
      rcases hl with rfl | rfl <;> rfl
    rw [hrun] at hgroup hrespells
    obtain ⟨hne, f, hf, n, hn, hkey, hname⟩ := Lookup.search_name hgroup
    rw [hname] at hrespells
    rw [hlkey] at hne hkey
    rw [find_arrange]
    refine Ladder.answer_of_respells (q := ⟨name, style⟩) hl hf hn ?_ ?_ ?_
    · rw [undecorate_eq_self hplain, hkey]
    · rwa [hkey]
    · rwa [undecorate_eq_self hplain]

theorem find_respelled_capitals :
    (∃ g t, (build [Ladder.faceNamed "Noto Sans"]).find ⟨"@ NOTO\tsans ", {}⟩ = .found g t ∧ t ≠ .fullName) ∧
    ∃ g t, (build [Ladder.faceNamed "Noto Sans"]).find ⟨"noto  SANS", {}⟩ = .found g t ∧ t ≠ .fullName := by
  have hmem : Ladder.faceNamed "Noto Sans" ∈ (build [Ladder.faceNamed "Noto Sans"]).faces := by
    rw [build_singleton]
    exact Array.mem_singleton_self _
  have hlookup : Lookup.typographic.run (build [Ladder.faceNamed "Noto Sans"]) "noto  SANS" =
      Lookup.typographic.search "noto  SANS" [Ladder.faceNamed "Noto Sans"] := by
    rw [build_singleton]
    exact Lookup.typographic.run_ofArranged _ _
  obtain ⟨hrequests, hlookups⟩ := find_respelled [Ladder.faceNamed "Noto Sans"] .typographic (.inl rfl)
  constructor
  · exact hrequests ⟨"@ NOTO\tsans ", {}⟩ _ hmem "Noto Sans" List.mem_cons_self (by decide +kernel)
      (by decide +kernel) (.inr (by decide +kernel))
  · apply hlookups "noto  SANS" {} (by decide) <;> rw [hlookup]
    · decide +kernel
    · exact .inr (by decide +kernel)

/-- White space about a name of neither letters nor numbers matters. -/
theorem find_spacedAsterisks :
    Ladder.faceNamed "***" ∈ (build [Ladder.faceNamed "***"]).faces ∧
    "***" ∈ (Ladder.faceNamed "***").typographicNames ∧
    familyKey (undecorate " ***") = familyKey "***" ∧ familyKey "***" ≠ "" ∧
    ((build [Ladder.faceNamed "***"]).lookupTypographic " ***").faces = [Ladder.faceNamed "***"] ∧
    (build [Ladder.faceNamed "***"]).find ⟨" ***", {}⟩ = .notFound := by
  have hlookup : (ofArranged [Ladder.faceNamed "***"]).lookupTypographic " ***" =
      Lookup.typographic.search " ***" [Ladder.faceNamed "***"] :=
    Lookup.typographic.run_ofArranged _ _
  rw [build_singleton, hlookup, find_ofArranged]
  exact ⟨Array.mem_singleton_self _, by decide +kernel⟩

end Catalog

end FontCatalog
