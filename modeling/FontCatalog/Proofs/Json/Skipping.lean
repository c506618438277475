import FontCatalog.Json.Skip
import FontCatalog.Proofs.Json.Reader

/-! Strings and numbers that can be read can be passed over, from the same place to the same place. -/
namespace FontCatalog.Json
set_option autoImplicit false

variable {ε : Type} {length depth : Nat} {bs rest : Bytes}

/-! ## Strings -/

theorem length_skipSpace (bs : Bytes) : (skipSpace bs).length ≤ bs.length := by
  induction bs with
  | nil => exact Nat.le_refl _
  | cons b bs ih =>
    rw [skipSpace]
    split
    · exact Nat.le_succ_of_le ih
    · exact Nat.le_refl _

theorem length_expect {word : List Char} (h : expect (ε := ε) word bs = .ok rest) : rest.length ≤ bs.length := by
  induction word generalizing bs with
  | nil =>
    cases h
    exact Nat.le_refl _
  | cons c word ih =>
    cases bs with
    | nil => cases h
    | cons b bs =>
      rw [expect] at h
      split at h
      · exact Nat.le_succ_of_le (ih h)
      · cases h

theorem length_readHex {n : Nat} (h : readHex (ε := ε) bs = .ok (n, rest)) : rest.length < bs.length := by
  unfold readHex at h
  split at h
  · split at h <;> cases h
    simp only [List.length_cons]
    omega
  · cases h

theorem skipEscape_of_readHex {n : Nat} (h : readHex (ε := ε) bs = .ok (n, rest)) :
    skipEscape (ε := ε) (byte 'u' :: bs) = .ok rest := by
  rw [skipEscape, if_neg (by decide), if_neg (by decide), h]

theorem readLow_eq_ok {high : Nat} {c : Char} (h : readLow (ε := ε) high bs = .ok (c, rest)) :
    ∃ r n, bs = byte '\\' :: byte 'u' :: r ∧ readHex (ε := ε) r = .ok (n, rest) := by
  unfold readLow at h
  split at h
  · cases h
  next b r =>
  split at h
  · cases h
  next hback =>
  split at h
  · cases h
  next b' r' =>
  split at h
  · cases h
  next hu =>
  split at h
  · cases h
  next n rest' hhex =>
  have hrest : rest' = rest := by
    split at h
    · injection h with h
      injection h
    · cases h
  subst hrest
  have hb : b = byte '\\' := by simpa using hback
  have hb' : b' = byte 'u' := by simpa using hu
  exact ⟨r', n, by rw [hb, hb'], hhex⟩

/-- An escape is passed over as one or, where it stands for a pair of surrogates, as two. -/
theorem skipEscape_of_readEscape {c : Char} (h : readEscape (ε := ε) bs = .ok (c, rest)) :
    rest.length < bs.length ∧ (skipEscape (ε := ε) bs = .ok rest ∨
      ∃ mid, skipEscape (ε := ε) bs = .ok (byte '\\' :: mid) ∧ skipEscape (ε := ε) mid = .ok rest) := by
  cases bs with
  | nil => cases h
  | cons b bs =>
    rw [readEscape] at h
    cases hsimple : simpleEscape? b with
    | some d =>
      rw [hsimple] at h
      cases h
      refine ⟨Nat.lt_succ_self _, .inl ?_⟩
      rw [skipEscape, if_pos (by simp [hsimple])]
    | none =>
      rw [hsimple] at h
      dsimp only at h
      split at h
      · cases h
      next hu =>
      have hb : b = byte 'u' := by simpa using hu
      subst hb
      cases hhex : readHex (ε := ε) bs with
      | error e =>
        rw [hhex] at h
        cases h
      | ok x =>
        obtain ⟨n, r⟩ := x
        rw [hhex] at h
        have hskip := skipEscape_of_readHex hhex
        have hlength := length_readHex hhex
        dsimp only at h
        split at h
        · cases h
          exact ⟨Nat.lt_succ_of_lt hlength, .inl hskip⟩
        split at h
        · obtain ⟨r', n', rfl, hlow⟩ := readLow_eq_ok h
          have hlength' := length_readHex hlow
          simp only [List.length_cons] at hlength ⊢
          exact ⟨by omega, .inr ⟨_, hskip, skipEscape_of_readHex hlow⟩⟩
        · cases h

theorem skipText_of_readTextOnto {fuel : Nat} {acc : Bytes} {t : String}
    (h : readTextOnto (ε := ε) fuel acc bs = .ok (t, rest)) :
    rest.length < bs.length ∧ ∀ k, bs.length ≤ k → skipText (ε := ε) k bs = .ok rest := by
  induction fuel generalizing acc bs with
  | zero => cases h
  | succ fuel ih =>
    cases bs with
    | nil => cases h
    | cons b bs =>
      have hfuel {k : Nat} (hk : (b :: bs).length ≤ k) : ∃ j, k = j + 1 ∧ bs.length ≤ j :=
        ⟨k - 1, by simp only [List.length_cons] at hk; omega, by simp only [List.length_cons] at hk; omega⟩
      rw [readTextOnto] at h
      split at h
      · next hquote =>
        split at h <;> cases h
        refine ⟨Nat.lt_succ_self _, fun k hk => ?_⟩
        obtain ⟨j, rfl, -⟩ := hfuel hk
        rw [skipText, if_pos hquote]
      split at h
      · next hquote hback =>
        split at h
        · cases h
        next c r hescape =>
        obtain ⟨hshorter, hescapes⟩ := skipEscape_of_readEscape hescape
        obtain ⟨hless, hskip⟩ := ih h
        refine ⟨by simp only [List.length_cons]; omega, fun k hk => ?_⟩
        obtain ⟨j, rfl, hj⟩ := hfuel hk
        rw [skipText, if_neg hquote, if_pos hback]
        rcases hescapes with hone | ⟨mid, hfirst, hsecond⟩
        · rw [hone]
          exact hskip j (by omega)
        · obtain ⟨i, rfl⟩ : ∃ i, j = i + 1 := ⟨j - 1, by omega⟩
          rw [hfirst]
          dsimp only
          rw [skipText, if_neg (by decide), if_pos (by decide), hsecond]
          exact hskip i (by omega)
      split at h
      · cases h
      next hquote hback hcontrol =>
      obtain ⟨hless, hskip⟩ := ih h
      refine ⟨by simp only [List.length_cons]; omega, fun k hk => ?_⟩
      obtain ⟨j, rfl, hj⟩ := hfuel hk
      rw [skipText, if_neg hquote, if_neg hback, if_neg hcontrol]
      exact hskip j hj

theorem skipText_of_readText {t : String} (h : readText (ε := ε) length bs = .ok (t, rest)) :
    rest.length < bs.length ∧ ∀ k, bs.length ≤ k → skipText (ε := ε) k bs = .ok rest :=
  skipText_of_readTextOnto h

theorem length_skipEscape (h : skipEscape (ε := ε) bs = .ok rest) : rest.length ≤ bs.length := by
  cases bs with
  | nil => cases h
  | cons b bs =>
    rw [skipEscape] at h
    split at h
    · cases h
      exact Nat.le_succ _
    split at h
    · cases h
    split at h <;> cases h
    next hhex => exact Nat.le_of_lt (Nat.lt_succ_of_lt (length_readHex hhex))

theorem length_skipText {fuel : Nat} (h : skipText (ε := ε) fuel bs = .ok rest) : rest.length ≤ bs.length := by
  induction fuel generalizing bs with
  | zero => cases h
  | succ fuel ih =>
    cases bs with
    | nil => cases h
    | cons b bs =>
      rw [skipText] at h
      split at h
      · cases h
        exact Nat.le_succ _
      split at h
      · split at h
        · cases h
        next r hescape => exact Nat.le_succ_of_le (Nat.le_trans (ih h) (length_skipEscape hescape))
      split at h
      · cases h
      · exact Nat.le_succ_of_le (ih h)

/-! ## Numbers -/

theorem dropDigits_rest (dropped : Nat) (bs : Bytes) : (dropDigits dropped bs).2 = (dropDigits 0 bs).2 := by
  induction bs generalizing dropped with
  | nil => rfl
  | cons b bs ih =>
    rw [dropDigits, dropDigits]
    split
    · rw [ih, ih (0 + 1)]
    · rfl

theorem dropDigits_cons {b : UInt8} (h : isDigit b = true) (bs : Bytes) :
    (dropDigits 0 (b :: bs)).2 = (dropDigits 0 bs).2 := by
  rw [dropDigits, if_pos h, dropDigits_rest]

theorem dropDigits_takeDigits (value taken : Nat) (bs : Bytes) :
    (dropDigits 0 (takeDigits value taken bs).2.2).2 = (dropDigits 0 bs).2 := by
  induction bs generalizing value taken with
  | nil => rfl
  | cons b bs ih =>
    rw [takeDigits]
    split
    · next hdigit =>
      rw [Bool.and_eq_true] at hdigit
      rw [ih, dropDigits_cons hdigit.1]
    · rfl

theorem exponentDigits_rest (value : Nat) (bs : Bytes) :
    (exponentDigits value bs).2 = (dropDigits 0 bs).2 := by
  induction bs generalizing value with
  | nil => rfl
  | cons b bs ih =>
    rw [exponentDigits]
    split
    · next hdigit =>
      rw [dropDigits_cons hdigit]
      split
      · exact ih _
      · rfl
    · next hdigit => rw [dropDigits, if_neg hdigit]

theorem double_rest {negative : Bool} {digits : Nat} {exponent : Int} {n : Number}
    (h : double (ε := ε) negative digits exponent bs = .ok (n, rest)) : rest = bs := by
  rw [double] at h
  split at h <;> cases h
  rfl

theorem skipDigits_of_startsDigit (h : startsDigit bs = true) :
    skipDigits (ε := ε) bs = .ok (dropDigits 0 bs).2 := by
  rw [skipDigits, if_pos h]

theorem skipDigits_of_readExponent {negative : Bool} {digits : Nat} {base : Int} {n : Number}
    (h : readExponent (ε := ε) negative digits base bs = .ok (n, rest)) :
    skipDigits (ε := ε) (exponentSign bs).2 = .ok rest := by
  rw [readExponent] at h
  generalize exponentSign bs = x at h ⊢
  obtain ⟨down, r⟩ := x
  dsimp only at h ⊢
  cases r with
  | nil => cases h
  | cons b r =>
    dsimp only at h
    split at h
    · cases h
    next hdigit =>
    have hstart : startsDigit (b :: r) = true := by simpa [startsDigit] using hdigit
    rw [skipDigits_of_startsDigit hstart, ← exponentDigits_rest 0]
    generalize exponentDigits 0 (b :: r) = x at h ⊢
    obtain ⟨_ | e, r⟩ := x
    · dsimp only at h ⊢
      split at h <;> cases h
      rfl
    · rw [double_rest h]

theorem skipExponent_of_finishDouble {negative : Bool} {digits : Nat} {exponent : Int} {n : Number}
    (h : finishDouble (ε := ε) negative digits exponent bs = .ok (n, rest)) :
    skipExponent (ε := ε) bs = .ok rest := by
  cases bs with
  | nil =>
    rw [finishDouble] at h
    rw [double_rest h, skipExponent]
  | cons b bs =>
    rw [finishDouble] at h
    rw [skipExponent]
    split at h
    · next hletter => rw [if_pos hletter, skipDigits_of_readExponent h]
    · next hletter => rw [if_neg hletter, double_rest h]

theorem skipExponent_of_readFraction {negative : Bool} {digits : Nat} {exponent : Int} {n : Number}
    (h : readFraction (ε := ε) negative digits exponent bs = .ok (n, rest)) :
    startsDigit bs = true ∧ skipExponent (ε := ε) (dropDigits 0 bs).2 = .ok rest := by
  unfold readFraction at h
  cases bs with
  | nil => cases h
  | cons b bs =>
    dsimp only at h
    split at h
    · cases h
    next hdigit =>
    refine ⟨by simpa [startsDigit] using hdigit, ?_⟩
    rw [← dropDigits_takeDigits digits 0]
    exact skipExponent_of_finishDouble h

theorem skipFraction_of_finishNumber {negative : Bool} {digits dropped : Nat} {n : Number}
    (h : finishNumber (ε := ε) negative digits dropped bs = .ok (n, rest)) :
    skipFraction (ε := ε) bs = .ok rest := by
  cases bs with
  | nil =>
    rw [finishNumber] at h
    split at h
    · cases h
      rfl
    · rw [double_rest h, skipFraction]
  | cons b bs =>
    rw [finishNumber] at h
    rw [skipFraction]
    split at h
    · next hpoint =>
      obtain ⟨hstart, hskip⟩ := skipExponent_of_readFraction h
      rw [if_pos hpoint, skipDigits_of_startsDigit hstart]
      exact hskip
    next hpoint =>
    rw [if_neg hpoint]
    split at h
    · next hletter => rw [skipExponent, if_pos hletter, skipDigits_of_readExponent h]
    next hletter =>
    rw [skipExponent, if_neg hletter]
    split at h
    · cases h
      rfl
    · rw [double_rest h]

theorem skipNumber_of_readNumber {negative : Bool} {n : Number}
    (h : readNumber (ε := ε) negative bs = .ok (n, rest)) : skipNumber (ε := ε) bs = .ok rest := by
  cases bs with
  | nil => cases h
  | cons b bs =>
    rw [readNumber] at h
    rw [skipNumber]
    split at h
    · next hzero =>
      rw [if_pos hzero]
      split at h
      · cases h
      · next hstart => rw [if_neg hstart, skipFraction_of_finishNumber h]
    next hzero =>
    rw [if_neg hzero]
    split at h
    · next hdigit =>
      rw [if_pos hdigit]
      have hdrop := dropDigits_takeDigits 0 0 (b :: bs)
      rw [dropDigits_cons hdigit] at hdrop
      rw [← hdrop]
      exact skipFraction_of_finishNumber h
    · cases h

theorem length_dropDigits (bs : Bytes) : (dropDigits 0 bs).2.length ≤ bs.length := by
  induction bs with
  | nil => exact Nat.le_refl _
  | cons b bs ih =>
    rw [dropDigits]
    split
    · rw [dropDigits_rest]
      exact Nat.le_succ_of_le ih
    · exact Nat.le_refl _

theorem length_skipDigits (h : skipDigits (ε := ε) bs = .ok rest) : rest.length ≤ bs.length := by
  rw [skipDigits] at h
  split at h <;> cases h
  exact length_dropDigits bs

theorem length_exponentSign (bs : Bytes) : (exponentSign bs).2.length ≤ bs.length := by
  cases bs with
  | nil => exact Nat.le_refl _
  | cons b bs =>
    rw [exponentSign]
    repeat' split
    all_goals simp

theorem length_skipExponent (h : skipExponent (ε := ε) bs = .ok rest) : rest.length ≤ bs.length := by
  cases bs with
  | nil =>
    cases h
    exact Nat.le_refl _
  | cons b bs =>
    rw [skipExponent] at h
    split at h
    · exact Nat.le_succ_of_le (Nat.le_trans (length_skipDigits h) (length_exponentSign bs))
    · cases h
      exact Nat.le_refl _

theorem length_skipFraction (h : skipFraction (ε := ε) bs = .ok rest) : rest.length ≤ bs.length := by
  cases bs with
  | nil =>
    cases h
    exact Nat.le_refl _
  | cons b bs =>
    rw [skipFraction] at h
    split at h
    · split at h
      · cases h
      · next r hdigits => exact Nat.le_succ_of_le (Nat.le_trans (length_skipExponent h) (length_skipDigits hdigits))
    · exact length_skipExponent h

theorem length_skipNumber (h : skipNumber (ε := ε) bs = .ok rest) : rest.length < bs.length := by
  cases bs with
  | nil => cases h
  | cons b bs =>
    rw [skipNumber] at h
    split at h
    · split at h
      · cases h
      · exact Nat.lt_succ_of_le (length_skipFraction h)
    split at h
    · exact Nat.lt_succ_of_le (Nat.le_trans (length_skipFraction h) (length_dropDigits bs))
    · cases h

end FontCatalog.Json
