import FontCatalog.Proofs.Name.Keys
import FontCatalog.Proofs.Text.Utf8
import FontCatalog.Text.Alphanumeric
import FontCatalog.Text.Blank
import FontCatalog.Text.Casing
import FontCatalog.Text.Utf16
import Mathlib.Algebra.GroupWithZero.Nat
import Mathlib.Data.List.Forall2

/-! Lower case, character by character. But for the dotted capital I, the lower case of a character is
one character of the same kind: a letter or number for a letter or number, a blank for a blank, and as
long in UTF-16. In a text only the capital sigma depends on what stands around it. -/
namespace FontCatalog.Text
set_option autoImplicit false

/-! ## Ranges -/

namespace Ranges

/-- Whether one range has all from `lo` to `hi`. -/
def spans (lo hi : Nat) (r : Ranges) : Bool := r.any fun p => Nat.ble p.1 lo && Nat.ble hi p.2

/-- Whether no range has any from `lo` to `hi`. -/
def misses (lo hi : Nat) (r : Ranges) : Bool := r.all fun p => Nat.blt hi p.1 || Nat.blt p.2 lo

theorem ascending_cons {p : Nat × Nat} {r : Ranges} (h : Ascending (p :: r) = true) :
    p.1 ≤ p.2 ∧ Ascending r = true ∧ ∀ q ∈ r, p.2 < q.1 := by
  induction r generalizing p with
  | nil => exact ⟨by simpa [Ascending] using h, rfl, List.forall_mem_nil _⟩
  | cons q r ih =>
    simp only [Ascending, Bool.and_eq_true, decide_eq_true_eq] at h
    obtain ⟨⟨hp, hpq⟩, hrest⟩ := h
    obtain ⟨hq, -, hbehind⟩ := ih hrest
    refine ⟨hp, hrest, List.forall_mem_cons.2 ⟨hpq, ?_⟩⟩
    intro s hs
    have hqs := hbehind s hs
    omega

theorem mem_of_holds {n : Nat} {r : Ranges} (h : holds n r = true) : ∃ p ∈ r, p.1 ≤ n ∧ n ≤ p.2 := by
  induction r with
  | nil => cases h
  | cons p r ih =>
    obtain ⟨lo, hi⟩ := p
    rw [holds] at h
    split at h
    · cases h
    · next hlo =>
      split at h
      · next hhi => exact ⟨(lo, hi), List.mem_cons_self, Nat.not_lt.1 hlo, hhi⟩
      · obtain ⟨q, hq, hn⟩ := ih h
        exact ⟨q, List.mem_cons_of_mem _ hq, hn⟩

theorem holds_of_mem {n : Nat} {r : Ranges} (hr : Ascending r = true) {p : Nat × Nat} (hp : p ∈ r)
    (hlo : p.1 ≤ n) (hhi : n ≤ p.2) : holds n r = true := by
  induction r with
  | nil => cases hp
  | cons q r ih =>
    obtain ⟨hq, hrest, hbehind⟩ := ascending_cons hr
    obtain ⟨first, last⟩ := q
    rw [holds]
    rcases List.mem_cons.1 hp with rfl | hp
    · rw [if_neg (Nat.not_lt.2 hlo), if_pos hhi]
    · have hlater := hbehind p hp
      dsimp only at hq hlater
      rw [if_neg (by omega), if_neg (by omega)]
      exact ih hrest hp

theorem holds_of_spans {r : Ranges} (hr : Ascending r = true) {lo hi n : Nat}
    (h : spans lo hi r = true) (hlo : lo ≤ n) (hhi : n ≤ hi) : holds n r = true := by
  obtain ⟨p, hp, hspan⟩ := List.any_eq_true.1 h
  simp only [Bool.and_eq_true, Nat.ble_eq] at hspan
  exact holds_of_mem hr hp (by omega) (by omega)

theorem not_holds_of_misses {r : Ranges} {lo hi n : Nat} (h : misses lo hi r = true) (hlo : lo ≤ n)
    (hhi : n ≤ hi) : holds n r = false := by
  rw [Bool.eq_false_iff]
  intro hn
  obtain ⟨p, hp, hpn⟩ := mem_of_holds hn
  have hmiss := List.all_eq_true.1 h p hp
  simp only [Bool.or_eq_true, Nat.blt_eq] at hmiss
  omega

/-- Sets of which no range of one meets the other have nothing in common. -/
theorem holds_disjoint {r s : Ranges} (h : (r.all fun p => misses p.1 p.2 s) = true) {n : Nat}
    (hn : holds n r = true) : holds n s = false := by
  obtain ⟨p, hp, hlo, hhi⟩ := mem_of_holds hn
  exact not_holds_of_misses (List.all_eq_true.1 h p hp) hlo hhi

end Ranges

/-! ## Blanks -/

theorem blankRanges_apart : ([alphanumericRanges, casedRanges, caseIgnorableRanges].all fun s =>
    blankRanges.all fun p => s.misses p.1 p.2) = true := by
  decide +kernel

theorem not_holds_of_isBlank {c : Char} (h : isBlank c = true) {s : Ranges}
    (hs : s ∈ [alphanumericRanges, casedRanges, caseIgnorableRanges]) : s.holds c.toNat = false :=
  Ranges.holds_disjoint (List.all_eq_true.1 blankRanges_apart s hs) h

theorem isAlphanumeric_of_isBlank {c : Char} (h : isBlank c = true) : isAlphanumeric c = false :=
  not_holds_of_isBlank h List.mem_cons_self

theorem isCased_of_isBlank {c : Char} (h : isBlank c = true) : isCased c = false :=
  not_holds_of_isBlank h (List.mem_cons_of_mem _ List.mem_cons_self)

theorem isCaseIgnorable_of_isBlank {c : Char} (h : isBlank c = true) : isCaseIgnorable c = false :=
  not_holds_of_isBlank h (List.mem_cons_of_mem _ (List.mem_cons_of_mem _ List.mem_cons_self))

theorem isBlank_of_isAlphanumeric {c : Char} (h : isAlphanumeric c = true) : isBlank c = false := by
  rw [Bool.eq_false_iff]
  intro hblank
  rw [isAlphanumeric_of_isBlank hblank] at h
  cases h

/-! ## One character -/

namespace CaseRun

/-- Where a run moves a code point to. -/
def target (r : CaseRun) (n : Nat) : Nat := Int.toNat (n + r.shift)

/-- Whether a run moves letters and numbers to letters and numbers from `lo` to `hi`, on one side of the
surrogates and of the code points of one unit, and past the final sigma. -/
def keeps (r : CaseRun) (lo hi : Nat) : Bool :=
  alphanumericRanges.spans lo hi && alphanumericRanges.spans (r.target lo) (r.target hi) &&
  (Nat.blt (r.target hi) 0xD800 || Nat.ble 0xE000 (r.target lo) && Nat.blt (r.target hi) 0x110000) &&
  (Nat.blt hi 0x10000 && Nat.blt (r.target hi) 0x10000 ||
    Nat.ble 0x10000 lo && Nat.ble 0x10000 (r.target lo)) &&
  (Nat.blt (r.target hi) 0x3C2 || Nat.blt 0x3C2 (r.target lo))

/-- A run of few characters that are not neighbours is checked one by one. -/
def sound (r : CaseRun) : Bool :=
  r.keeps r.first r.last ||
    (List.range ((r.last - r.first) / r.step + 1)).all fun k =>
      r.keeps (r.first + r.step * k) (r.first + r.step * k)

theorem covers_iff {r : CaseRun} {n : Nat} :
    r.covers n = true ↔ r.first ≤ n ∧ n ≤ r.last ∧ (n - r.first) % r.step = 0 := by
  simp only [covers, Bool.and_eq_true, decide_eq_true_eq, beq_iff_eq, and_assoc]

theorem keeps_of_covers {r : CaseRun} (hr : r.sound = true) {n : Nat} (hn : r.covers n = true) :
    ∃ lo hi, lo ≤ n ∧ n ≤ hi ∧ r.keeps lo hi = true := by
  obtain ⟨hfirst, hlast, hstep⟩ := covers_iff.1 hn
  rcases Bool.or_eq_true_iff.1 hr with hwhole | hall
  · exact ⟨r.first, r.last, hfirst, hlast, hwhole⟩
  · have hmul : r.step * ((n - r.first) / r.step) = n - r.first := Nat.mul_div_cancel' (Nat.dvd_of_mod_eq_zero hstep)
    have hless : (n - r.first) / r.step < (r.last - r.first) / r.step + 1 :=
      Nat.lt_succ_of_le (Nat.div_le_div_right (by omega))
    have hkeeps := List.all_eq_true.1 hall _ (List.mem_range.2 hless)
    rw [hmul, Nat.add_sub_cancel' hfirst] at hkeeps
    exact ⟨n, n, Nat.le_refl n, Nat.le_refl n, hkeeps⟩

end CaseRun

theorem alphanumericRanges_ascending : alphanumericRanges.Ascending = true := by decide +kernel

theorem lowerRuns_sound : lowerRuns.all CaseRun.sound = true := by decide +kernel

theorem mem_of_findRun {n : Nat} {runs : List CaseRun} {r : CaseRun} (h : findRun n runs = some r) :
    r ∈ runs ∧ r.covers n = true := by
  induction runs with
  | nil => cases h
  | cons s runs ih =>
    rw [findRun] at h
    split at h
    · cases h
    · split at h
      · next hcovers =>
        cases h
        exact ⟨List.mem_cons_self, hcovers⟩
      · obtain ⟨hmem, hcovers⟩ := ih h
        exact ⟨List.mem_cons_of_mem _ hmem, hcovers⟩

theorem CaseRun.target_mono (r : CaseRun) {m n : Nat} (h : m ≤ n) : r.target m ≤ r.target n := by
  unfold target
  omega

/-- Where a character is moved to, there is a character. -/
theorem toNat_target {r : CaseRun} (hr : r ∈ lowerRuns) {n : Nat} (hn : r.covers n = true) :
    (Char.ofNat (r.target n)).toNat = r.target n := by
  obtain ⟨lo, hi, hlo, hhi, hkeeps⟩ :=
    CaseRun.keeps_of_covers (List.all_eq_true.1 lowerRuns_sound r hr) hn
  simp only [CaseRun.keeps, Bool.and_eq_true, Bool.or_eq_true, Nat.blt_eq, Nat.ble_eq] at hkeeps
  have hfrom := r.target_mono hlo
  have hto := r.target_mono hhi
  apply toNat_ofNat
  omega

/-- What a character has in common with its lower case. -/
structure LowerOf (c d : Char) : Prop where
  alphanumeric : isAlphanumeric d = isAlphanumeric c
  blank : isBlank d = isBlank c
  units : unitsOf d = unitsOf c
  final : d = 'ς' → c = 'ς'
  other : isAlphanumeric c = false → d = c

theorem lowerChar_cases (c : Char) :
    (c = '\u0130' ∧ lowerChar c = ['i', '\u0307']) ∨
      (c ≠ '\u0130' ∧ ∃ d, lowerChar c = [d] ∧ LowerOf c d) := by
  by_cases hdotted : c = '\u0130'
  · exact .inl ⟨hdotted, by rw [lowerChar, if_pos hdotted]⟩
  refine .inr ⟨hdotted, ?_⟩
  rw [lowerChar, if_neg hdotted]
  cases hrun : findRun c.toNat lowerRuns with
  | none => exact ⟨c, rfl, rfl, rfl, rfl, id, fun _ => rfl⟩
  | some r =>
    obtain ⟨hmem, hcovers⟩ := mem_of_findRun hrun
    obtain ⟨lo, hi, hlo, hhi, hkeeps⟩ :=
      CaseRun.keeps_of_covers (List.all_eq_true.1 lowerRuns_sound r hmem) hcovers
    simp only [CaseRun.keeps, Bool.and_eq_true, Bool.or_eq_true, Nat.blt_eq, Nat.ble_eq] at hkeeps
    obtain ⟨⟨⟨⟨hsource, htarget⟩, -⟩, hunits⟩, hfinal⟩ := hkeeps
    have hfrom := r.target_mono hlo
    have hto := r.target_mono hhi
    have hnat := toNat_target hmem hcovers
    have hc : isAlphanumeric c = true :=
      Ranges.holds_of_spans alphanumericRanges_ascending hsource hlo hhi
    have hd : isAlphanumeric (Char.ofNat (r.target c.toNat)) = true := by
      rw [isAlphanumeric, hnat]
      exact Ranges.holds_of_spans alphanumericRanges_ascending htarget hfrom hto
    refine ⟨Char.ofNat (r.target c.toNat), rfl, ?_, ?_, ?_, ?_, ?_⟩
    · rw [hc, hd]
    · rw [isBlank_of_isAlphanumeric hc, isBlank_of_isAlphanumeric hd]
    · rw [unitsOf, unitsOf, hnat]
      split <;> split <;> omega
    · intro heq
      have hsigma := congrArg Char.toNat heq
      rw [hnat] at hsigma
      change r.target c.toNat = 0x3C2 at hsigma
      omega
    · rw [hc]
      exact nofun

/-! ## A text -/

/-- How a letter or number is found in the lower case of a text. -/
inductive FoldsTo : Char → Char → Prop
  | dotted : FoldsTo '\u0130' 'i'
  | sigma : FoldsTo 'Σ' 'σ'
  | finalSigma : FoldsTo 'Σ' 'ς'
  | plain {c d : Char} (hdotted : c ≠ '\u0130') (hlower : lowerChar c = [d]) (hfinal : d = 'ς' → c = 'ς') :
      FoldsTo c d

/-- The letters and numbers of a text in lower case are those of the text, each in lower case. -/
theorem filter_lowerBetween (before : List Char) (c : Char) (after : List Char) :
    List.Forall₂ FoldsTo ([c].filter isAlphanumeric) ((lowerBetween before c after).filter isAlphanumeric) := by
  have hsigma : isAlphanumeric 'Σ' = true := by decide
  have hsmall : isAlphanumeric 'σ' = true := by decide
  have hfinal : isAlphanumeric 'ς' = true := by decide
  have hdotted : isAlphanumeric '\u0130' = true := by decide
  have hi : isAlphanumeric 'i' = true := by decide
  have hdot : isAlphanumeric '\u0307' = false := by decide
  unfold lowerBetween
  by_cases hc : c = 'Σ'
  · subst hc
    rw [if_pos rfl]
    split
    · simpa [hsigma, hfinal] using FoldsTo.finalSigma
    · simpa [hsigma, hsmall] using FoldsTo.sigma
  · rw [if_neg hc]
    rcases lowerChar_cases c with ⟨rfl, hlower⟩ | ⟨hne, d, hlower, hd⟩
    · rw [hlower]
      simpa [hdotted, hi, hdot] using FoldsTo.dotted
    · rw [hlower]
      cases hletter : isAlphanumeric c with
      | true => simpa [hletter, hd.alphanumeric] using FoldsTo.plain hne hlower hd.final
      | false => simp [hletter, hd.alphanumeric]

theorem filter_lowerAfter (before cs : List Char) :
    List.Forall₂ FoldsTo (cs.filter isAlphanumeric) ((lowerAfter before cs).filter isAlphanumeric) := by
  induction cs generalizing before with
  | nil => exact .nil
  | cons c cs ih =>
    have hhead := filter_lowerBetween before c cs
    have hsplit : (c :: cs).filter isAlphanumeric = [c].filter isAlphanumeric ++ cs.filter isAlphanumeric := by
      rw [← List.filter_append, List.singleton_append]
    rw [lowerAfter, List.filter_append, hsplit]
    exact List.rel_append hhead (ih _)

theorem units_lowerBetween (before : List Char) (c : Char) (after : List Char) :
    ((lowerBetween before c after).map unitsOf).sum = unitsOf c + [c].count '\u0130' := by
  unfold lowerBetween
  by_cases hc : c = 'Σ'
  · subst hc
    rw [if_pos rfl]
    split <;> rfl
  · rw [if_neg hc]
    rcases lowerChar_cases c with ⟨rfl, hlower⟩ | ⟨hne, d, hlower, hd⟩
    · rw [hlower]
      rfl
    · simp [hlower, hd.units, hne]

theorem units_lowerAfter (before cs : List Char) :
    ((lowerAfter before cs).map unitsOf).sum = (cs.map unitsOf).sum + cs.count '\u0130' := by
  induction cs generalizing before with
  | nil => rfl
  | cons c cs ih =>
    have hhead := units_lowerBetween before c cs
    have hcount : (c :: cs).count '\u0130' = [c].count '\u0130' + cs.count '\u0130' := by
      rw [← List.count_append, List.singleton_append]
    rw [lowerAfter, List.map_append, List.sum_append, hhead, ih, hcount, List.map_cons, List.sum_cons]
    omega

/-- In lower case a text is as long in UTF-16, but for its dotted capital I. -/
theorem units16_lowercase (s : String) : units16 (lowercase s) = units16 s + s.toList.count '\u0130' := by
  have hsum (s : String) : units16 s = (s.toList.map unitsOf).sum := by
    rw [units16, List.sum_eq_foldr, List.foldr_map]
  rw [hsum, hsum, lowercase, String.toList_ofList]
  exact units_lowerAfter [] s.toList

/-! ## Words -/

theorem lowerBetween_blank {b : Char} (hb : isBlank b = true) (before after : List Char) :
    lowerBetween before b after = [b] := by
  have hletter := isAlphanumeric_of_isBlank hb
  have hsigma : b ≠ 'Σ' := by
    rintro rfl
    exact absurd hletter (by decide)
  rw [lowerBetween, if_neg hsigma]
  rcases lowerChar_cases b with ⟨rfl, -⟩ | ⟨-, d, hlower, hd⟩
  · exact absurd hletter (by decide)
  · rw [hlower, hd.other hletter]

theorem lowerBetween_not_blank {c : Char} (hc : isBlank c = false) (before after : List Char) :
    ∀ d ∈ lowerBetween before c after, isBlank d = false := by
  have hsmall : isBlank 'σ' = false := by decide
  have hfinal : isBlank 'ς' = false := by decide
  have hi : isBlank 'i' = false := by decide
  have hdot : isBlank '\u0307' = false := by decide
  unfold lowerBetween
  by_cases hsigma : c = 'Σ'
  · rw [if_pos hsigma]
    split
    · exact List.forall_mem_singleton.2 hfinal
    · exact List.forall_mem_singleton.2 hsmall
  · rw [if_neg hsigma]
    rcases lowerChar_cases c with ⟨-, hlower⟩ | ⟨-, d, hlower, hd⟩
    · rw [hlower]
      exact List.forall_mem_cons.2 ⟨hi, List.forall_mem_singleton.2 hdot⟩
    · rw [hlower, List.forall_mem_singleton, hd.blank, hc]

theorem lowerAfter_not_blank {cs : List Char} (hcs : ∀ c ∈ cs, isBlank c = false) (before : List Char) :
    ∀ d ∈ lowerAfter before cs, isBlank d = false := by
  induction cs generalizing before with
  | nil => exact List.forall_mem_nil _
  | cons c cs ih =>
    rw [List.forall_mem_cons] at hcs
    rw [lowerAfter, List.forall_mem_append]
    exact ⟨lowerBetween_not_blank hcs.1 before cs, ih hcs.2 _⟩

theorem meetsCased_blank {b : Char} (hb : isBlank b = true) (rest : List Char) :
    meetsCased (b :: rest) = false := by
  simp [meetsCased, isCaseIgnorable_of_isBlank hb, isCased_of_isBlank hb]

theorem meetsCased_append_blank {b : Char} (hb : isBlank b = true) (cs rest : List Char) :
    meetsCased (cs ++ b :: rest) = meetsCased cs := by
  induction cs with
  | nil => exact meetsCased_blank hb rest
  | cons c cs ih => rw [List.cons_append, meetsCased, meetsCased, ih]

theorem lowerAfter_congr {before before' : List Char} (h : meetsCased before = meetsCased before')
    (cs : List Char) : lowerAfter before cs = lowerAfter before' cs := by
  induction cs generalizing before before' with
  | nil => rfl
  | cons c cs ih =>
    have hnext : meetsCased (c :: before) = meetsCased (c :: before') := by
      rw [meetsCased, meetsCased, h]
    rw [lowerAfter, lowerAfter, ih hnext, lowerBetween, lowerBetween, h]

/-- A blank parts a text: neither side matters to the other. -/
theorem lowerAfter_append_blank {b : Char} (hb : isBlank b = true) (before cs rest : List Char) :
    lowerAfter before (cs ++ b :: rest) = lowerAfter before cs ++ b :: lowerAfter [] rest := by
  induction cs generalizing before with
  | nil =>
    have hstart : meetsCased (b :: before) = meetsCased [] := meetsCased_blank hb before
    simp only [List.nil_append, lowerAfter, lowerBetween_blank hb, lowerAfter_congr hstart, List.singleton_append]
  | cons c cs ih =>
    have hbetween : lowerBetween before c (cs ++ b :: rest) = lowerBetween before c cs := by
      rw [lowerBetween, lowerBetween, meetsCased_append_blank hb]
    rw [List.cons_append, lowerAfter, ih, lowerAfter, hbetween, List.append_assoc]

theorem foldr_wordStep (cs : List Char) (ws : List (List Char)) :
    cs.foldr wordStep ([], ws) =
      ((cs.foldr wordStep ([], [])).1, (cs.foldr wordStep ([], [])).2 ++ ws) := by
  induction cs with
  | nil => rfl
  | cons c cs ih =>
    rw [List.foldr_cons, ih, List.foldr_cons]
    simp only [wordStep]
    split
    · split <;> rfl
    · rfl

theorem words_append_blank {b : Char} (hb : isBlank b = true) (cs rest : List Char) :
    words (cs ++ b :: rest) = words cs ++ words rest := by
  have hrest : (b :: rest).foldr wordStep ([], []) = ([], words rest) := by
    rw [List.foldr_cons, wordStep, if_pos hb]
    rfl
  generalize words rest = ws at hrest ⊢
  simp only [words, List.foldr_append, hrest]
  rw [foldr_wordStep, apply_ite (· ++ ws)]
  rfl

theorem words_of_not_blank {w : List Char} (hw : ∀ c ∈ w, isBlank c = false) :
    words w = if w = [] then [] else [w] := by
  have hfold : w.foldr wordStep ([], []) = (w, []) := by
    induction w with
    | nil => rfl
    | cons c w ih =>
      rw [List.forall_mem_cons] at hw
      rw [List.foldr_cons, ih hw.2, wordStep, hw.1]
      rfl
  rw [words, hfold]
  cases w <;> rfl

/-- A text is one word, perhaps empty, or such a word, a blank and a text. -/
theorem words_induction {motive : List Char → Prop}
    (word : ∀ w, (∀ c ∈ w, isBlank c = false) → motive w)
    (part : ∀ w b rest, (∀ c ∈ w, isBlank c = false) → isBlank b = true → motive rest →
      motive (w ++ b :: rest)) (cs : List Char) : motive cs := by
  have hfrom : ∀ w, (∀ c ∈ w, isBlank c = false) → motive (w ++ cs) := by
    induction cs with
    | nil =>
      intro w hw
      rw [List.append_nil]
      exact word w hw
    | cons c cs ih =>
      intro w hw
      cases hc : isBlank c with
      | true => exact part w c cs hw hc (ih [] (List.forall_mem_nil _))
      | false =>
        rw [List.append_cons]
        refine ih (w ++ [c]) ?_
        rw [List.forall_mem_append, List.forall_mem_singleton]
        exact ⟨hw, hc⟩
  exact hfrom [] (List.forall_mem_nil _)

theorem words_lowerAfter (cs : List Char) : words (lowerAfter [] cs) = (words cs).map (lowerAfter []) := by
  have hword : ∀ w, (∀ c ∈ w, isBlank c = false) →
      words (lowerAfter [] w) = (words w).map (lowerAfter []) := by
    intro w hw
    rw [words_of_not_blank hw, words_of_not_blank (lowerAfter_not_blank hw [])]
    cases w with
    | nil => rfl
    | cons c w => simp [lowerAfter, lowerBetween_ne_nil]
  induction cs using words_induction with
  | word w hw => exact hword w hw
  | part w b rest hw hb ih =>
    rw [lowerAfter_append_blank hb, words_append_blank hb, words_append_blank hb, List.map_append, ih,
      hword w hw]

theorem filter_words (cs : List Char) :
    (words cs).flatMap (·.filter isAlphanumeric) = cs.filter isAlphanumeric := by
  have hword : ∀ w, (∀ c ∈ w, isBlank c = false) →
      (words w).flatMap (·.filter isAlphanumeric) = w.filter isAlphanumeric := by
    intro w hw
    rw [words_of_not_blank hw]
    cases w <;> simp
  induction cs using words_induction with
  | word w hw => exact hword w hw
  | part w b rest hw hb ih =>
    rw [words_append_blank hb, List.flatMap_append, ih, hword w hw, List.filter_append]
    simp [isAlphanumeric_of_isBlank hb]

theorem isBlank_space : isBlank ' ' = true := by decide

theorem lowerAfter_intercalate (ws : List (List Char)) :
    lowerAfter [] ([' '].intercalate ws) = [' '].intercalate (ws.map (lowerAfter [])) := by
  induction ws with
  | nil => rfl
  | cons w ws ih =>
    cases ws with
    | nil => simp [List.intercalate]
    | cons v ws =>
      simp only [List.map_cons] at ih ⊢
      rw [List.intercalate_cons_cons, List.intercalate_cons_cons, List.append_assoc, List.singleton_append,
        lowerAfter_append_blank isBlank_space, ih, List.append_assoc, List.singleton_append]

theorem filter_intercalate (ws : List (List Char)) :
    ([' '].intercalate ws).filter isAlphanumeric = ws.flatMap (·.filter isAlphanumeric) := by
  have hspace : isAlphanumeric ' ' = false := isAlphanumeric_of_isBlank isBlank_space
  induction ws with
  | nil => rfl
  | cons w ws ih =>
    cases ws with
    | nil => simp [List.intercalate]
    | cons v ws =>
      rw [List.intercalate_cons_cons, List.filter_append, ih, List.flatMap_cons]
      simp [hspace]

/-- Lower case and single spaces may be made in either order. -/
theorem lowerAfter_collapse (cs : List Char) : lowerAfter [] (collapse cs) = collapse (lowerAfter [] cs) := by
  rw [collapse, lowerAfter_intercalate, ← words_lowerAfter, collapse]

theorem filter_collapse (cs : List Char) :
    (collapse cs).filter isAlphanumeric = cs.filter isAlphanumeric := by
  rw [collapse, filter_intercalate, filter_words]

end FontCatalog.Text
