import FontCatalog.Json.Lexer
import FontCatalog.Json.Writer
import FontCatalog.Proofs.Text.Utf8

/-! The words of JSON text are read back: strings with any characters in them, and integers of 64
bits. -/
namespace FontCatalog.Json
set_option autoImplicit false
open FontCatalog.Text

/-! ## White space and literals -/

/-- Nothing but white space. -/
def Blank (bs : Bytes) : Prop := ∀ b ∈ bs, isSpace b = true

theorem skipSpace_blank {ws : Bytes} (h : Blank ws) (bs : Bytes) :
    skipSpace (ws ++ bs) = skipSpace bs := by
  induction ws with
  | nil => rfl
  | cons w ws ih =>
    rw [List.cons_append, skipSpace, if_pos (h w List.mem_cons_self)]
    exact ih fun b hb => h b (List.mem_cons_of_mem _ hb)

theorem skipSpace_cons {b : UInt8} (h : isSpace b = false) (bs : Bytes) :
    skipSpace (b :: bs) = b :: bs := by
  rw [skipSpace, if_neg (by simp [h])]

theorem utf8EncodeChar_byte {c : Char} (h : c.toNat ≤ 0x7F) : String.utf8EncodeChar c = [byte c] :=
  utf8EncodeChar_ascii h

theorem encodeChars_ascii {cs : List Char} (h : ∀ c ∈ cs, c.toNat ≤ 0x7F) :
    encodeChars cs = cs.map byte := by
  induction cs with
  | nil => rfl
  | cons c cs ih =>
    rw [encodeChars_cons, utf8EncodeChar_byte (h c List.mem_cons_self),
      ih fun d hd => h d (List.mem_cons_of_mem _ hd)]
    rfl

theorem beq_byte (b : UInt8) {c : Char} (h : c.toNat ≤ 0x7F) :
    (b == byte c) = decide (b.toNat = c.toNat) := by
  have hc : (byte c).toNat = c.toNat := toNat_byte (by omega)
  rw [Bool.eq_iff_iff, beq_iff_eq, decide_eq_true_iff, ← hc, UInt8.toNat_inj]

theorem expect_word {ε : Type} (word : List Char) (rest : Bytes) :
    expect (ε := ε) word (word.map byte ++ rest) = .ok rest := by
  induction word with
  | nil => rfl
  | cons c word ih => simpa [expect] using ih

/-! ## Strings -/

section
variable {ε : Type} (acc rest : Bytes) (fuel : Nat)

/-- Bytes that stand for themselves in a string. -/
def Raw (bs : Bytes) : Prop := ∀ b ∈ bs, 0x20 ≤ b.toNat ∧ b.toNat ≠ 0x22 ∧ b.toNat ≠ 0x5C

theorem readTextOnto_raw {bs : Bytes} (h : Raw bs) :
    readTextOnto (ε := ε) (bs.length + fuel) acc (bs ++ rest) =
      readTextOnto fuel (bs.reverse ++ acc) rest := by
  induction bs generalizing acc with
  | nil => simp
  | cons b bs ih =>
    obtain ⟨hlow, hquote, hback⟩ := h b List.mem_cons_self
    have hq : (b == byte '"') = false := by
      rw [beq_byte b (by decide)]
      exact decide_eq_false hquote
    have hb : (b == byte '\\') = false := by
      rw [beq_byte b (by decide)]
      exact decide_eq_false hback
    have hl : ¬ b < 0x20 := by
      rw [UInt8.lt_iff_toNat_lt]
      exact Nat.not_lt.2 hlow
    rw [List.length_cons, Nat.add_right_comm, List.cons_append, readTextOnto, if_neg (by simp [hq]),
      if_neg (by simp [hb]), if_neg hl, ih _ fun b hb => h b (List.mem_cons_of_mem _ hb)]
    simp

theorem readTextOnto_escape {c : Char} {bs : Bytes}
    (h : ∀ rest, readEscape (ε := ε) (bs ++ rest) = .ok (c, rest)) :
    readTextOnto (ε := ε) (fuel + 1) acc (byte '\\' :: (bs ++ rest)) =
      readTextOnto fuel ((String.utf8EncodeChar c).reverse ++ acc) rest := by
  rw [readTextOnto, if_neg (by decide), if_pos (by decide), h]

theorem readTextOnto_quote {cs : List Char} :
    readTextOnto (ε := ε) (fuel + 1) (encodeChars cs).reverse (byte '"' :: rest) =
      .ok (String.ofList cs, rest) := by
  rw [readTextOnto, if_pos (by decide), List.reverse_reverse, decode?_encodeChars]

end

theorem raw_utf8EncodeChar {c : Char} (hlow : 0x20 ≤ c.toNat) (hquote : c ≠ '"') (hback : c ≠ '\\') :
    Raw (String.utf8EncodeChar c) := by
  have hq : c.toNat ≠ 0x22 := fun h => hquote (Char.toNat_inj.1 h)
  have hb : c.toNat ≠ 0x5C := fun h => hback (Char.toNat_inj.1 h)
  rw [utf8EncodeChar_eq]
  intro b h
  repeat' split at h
  all_goals
    simp only [List.mem_cons, List.not_mem_nil, or_false] at h
    rcases h with rfl | rfl | rfl | rfl <;> rw [toNat_byte (by omega)] <;> omega

theorem hexValue?_hexDigit {n : Nat} (h : n < 16) : hexValue? (byte (Nat.digitChar n)) = some n := by
  decide +revert

theorem readEscape_hex {ε : Type} {c : Char} (h : c.toNat < 0x20) (rest : Bytes) :
    readEscape (ε := ε)
      (['u', '0', '0', hexDigit (c.toNat / 16), hexDigit c.toNat].map byte ++ rest) =
        .ok (c, rest) := by
  have hhigh : hexValue? (byte (hexDigit (c.toNat / 16))) = some (c.toNat / 16) := by
    rw [hexDigit, Nat.mod_eq_of_lt (by omega)]
    exact hexValue?_hexDigit (by omega)
  have hlow : hexValue? (byte (hexDigit c.toNat)) = some (c.toNat % 16) :=
    hexValue?_hexDigit (Nat.mod_lt _ (by decide))
  have hzero : hexValue? (byte '0') = some 0 := by decide
  have hn : ((0 * 16 + 0) * 16 + c.toNat / 16) * 16 + c.toNat % 16 = c.toNat := by omega
  simp only [List.map_cons, List.map_nil, List.cons_append, List.nil_append, readEscape,
    show simpleEscape? (byte 'u') = none by decide, readHex, hzero, hhigh, hlow, hn]
  rw [if_neg (by decide), if_pos (by omega), Char.ofNat_toNat]

theorem hexDigit_ascii (n : Nat) : (hexDigit n).toNat ≤ 0x7F := by
  have h : ∀ m < 16, (Nat.digitChar m).toNat ≤ 0x7F := by decide
  exact h (n % 16) (Nat.mod_lt _ (by decide))

/-- A character is read back as it has been written, in so many steps. -/
theorem readTextOnto_escapeChar {ε : Type} (c : Char) :
    ∃ steps, steps ≤ (encodeChars (escapeChar c)).length ∧ ∀ (acc rest : Bytes) (fuel : Nat),
      readTextOnto (ε := ε) (steps + fuel) acc (encodeChars (escapeChar c) ++ rest) =
        readTextOnto fuel ((String.utf8EncodeChar c).reverse ++ acc) rest := by
  -- The escapes all take one step: `ds` stands after the backslash.
  have escape (ds : List Char) (hds : ∀ d ∈ ds, d.toNat ≤ 0x7F)
      (hread : ∀ rest, readEscape (ε := ε) (ds.map byte ++ rest) = .ok (c, rest)) :
      ∃ steps, steps ≤ (encodeChars ('\\' :: ds)).length ∧ ∀ (acc rest : Bytes) (fuel : Nat),
        readTextOnto (ε := ε) (steps + fuel) acc (encodeChars ('\\' :: ds) ++ rest) =
          readTextOnto fuel ((String.utf8EncodeChar c).reverse ++ acc) rest := by
    have hascii : encodeChars ('\\' :: ds) = byte '\\' :: ds.map byte :=
      encodeChars_ascii (List.forall_mem_cons.2 ⟨by decide, hds⟩)
    rw [hascii]
    refine ⟨1, by simp, fun acc rest fuel => ?_⟩
    rw [Nat.add_comm]
    exact readTextOnto_escape acc rest fuel hread
  have short (d : Char) (hd : d.toNat ≤ 0x7F)
      (hread : ∀ rest, readEscape (ε := ε) (byte d :: rest) = .ok (c, rest)) :=
    escape [d] (List.forall_mem_singleton.2 hd) hread
  unfold escapeChar
  split
  · next h => exact short '"' (by decide) fun rest => by rw [h]; rfl
  split
  · next h => exact short '\\' (by decide) fun rest => by rw [h]; rfl
  split
  · next h => exact short 'b' (by decide) fun rest => by rw [h]; rfl
  split
  · next h => exact short 't' (by decide) fun rest => by rw [h]; rfl
  split
  · next h => exact short 'n' (by decide) fun rest => by rw [h]; rfl
  split
  · next h => exact short 'f' (by decide) fun rest => by rw [h]; rfl
  split
  · next h => exact short 'r' (by decide) fun rest => by rw [h]; rfl
  split
  · next h =>
    refine escape ['u', '0', '0', _, _] ?_ (readEscape_hex h)
    simp [hexDigit_ascii]
  · next hquote hback _ _ _ _ _ hlow =>
    refine ⟨(String.utf8EncodeChar c).length, ?_, fun acc rest fuel => ?_⟩
    · simp
    · rw [encodeChars_cons, encodeChars_nil, List.append_nil]
      exact readTextOnto_raw acc rest fuel (raw_utf8EncodeChar (Nat.not_lt.1 hlow) hquote hback)

theorem readTextOnto_escaped {ε : Type} (done cs : List Char) (rest : Bytes) (fuel : Nat)
    (h : (encodeChars (cs.flatMap escapeChar)).length < fuel) :
    readTextOnto (ε := ε) fuel (encodeChars done).reverse
        (encodeChars (cs.flatMap escapeChar) ++ byte '"' :: rest) =
      .ok (String.ofList (done ++ cs), rest) := by
  induction cs generalizing done fuel with
  | nil =>
    obtain ⟨fuel, rfl⟩ := Nat.exists_eq_add_one_of_ne_zero (Nat.ne_zero_of_lt h)
    rw [List.append_nil]
    exact readTextOnto_quote rest fuel
  | cons c cs ih =>
    obtain ⟨steps, hsteps, hread⟩ := readTextOnto_escapeChar (ε := ε) c
    rw [List.flatMap_cons, encodeChars_append, List.length_append] at h
    obtain ⟨left, rfl⟩ : ∃ left, fuel = steps + left := ⟨fuel - steps, by omega⟩
    rw [List.flatMap_cons, encodeChars_append, List.append_assoc, hread, ← List.reverse_append]
    have hdone : encodeChars done ++ String.utf8EncodeChar c = encodeChars (done ++ [c]) := by simp
    rw [hdone, ih (done ++ [c]) left (by omega)]
    simp

/-- The bytes of a string between its quotes. -/
def textBody (s : String) : Bytes := encodeChars (s.toList.flatMap escapeChar)

theorem encodeChars_writeText (s : String) :
    encodeChars (writeText s) = byte '"' :: (textBody s ++ [byte '"']) := by
  rw [writeText, encodeChars_cons, encodeChars_append]
  rfl

theorem readText_textBody {ε : Type} {length : Nat} (s : String) (rest : Bytes)
    (h : (textBody s).length ≤ length) :
    readText (ε := ε) length (textBody s ++ byte '"' :: rest) = .ok (s, rest) := by
  have hread := readTextOnto_escaped (ε := ε) [] s.toList rest (length + 1) (Nat.lt_succ_of_le h)
  rwa [List.nil_append, String.ofList_toList] at hread

/-! ## Numbers -/

/-- A value ends here: at the end of the text or before a byte that cannot go on with a number. -/
def Ends : Bytes → Prop
  | [] => True
  | b :: _ => isDigit b = false ∧ isExponentLetter b = false ∧ (b == byte '.') = false

theorem toNat_of_isDigit {c : Char} (h : c.isDigit = true) : 48 ≤ c.toNat ∧ c.toNat ≤ 57 := by
  rw [Char.isDigit, Bool.and_eq_true, decide_eq_true_iff, decide_eq_true_iff] at h
  exact h

theorem isDigit_eq (b : UInt8) : isDigit b = decide (48 ≤ b.toNat ∧ b.toNat ≤ 57) := by
  rw [isDigit, Bool.decide_and]
  rfl

theorem isDigit_byte {c : Char} (h : c.isDigit = true) : isDigit (byte c) = true := by
  have hc := toNat_of_isDigit h
  have hb : (byte c).toNat = c.toNat := toNat_byte (by omega)
  rw [isDigit_eq, hb]
  exact decide_eq_true hc

theorem digitValue_byte {c : Char} (h : c.isDigit = true) : digitValue (byte c) = c.toNat - 48 := by
  have hc := toNat_of_isDigit h
  have hb : (byte c).toNat = c.toNat := toNat_byte (by omega)
  rw [digitValue, hb]

theorem le_ofDigitChars (cs : List Char) (value : Nat) : value ≤ Nat.ofDigitChars 10 cs value := by
  induction cs generalizing value with
  | nil => simp
  | cons c cs ih =>
    rw [Nat.ofDigitChars_cons]
    have h := ih (10 * value + (c.toNat - '0'.toNat))
    omega

theorem takeDigits_digits {cs : List Char} (hcs : ∀ c ∈ cs, c.isDigit = true) {rest : Bytes}
    (hrest : Ends rest) (value taken : Nat)
    (hfit : Nat.ofDigitChars 10 cs value < 0x10000000000000000) :
    takeDigits value taken (cs.map byte ++ rest) =
      (Nat.ofDigitChars 10 cs value, taken + cs.length, rest) := by
  induction cs generalizing value taken with
  | nil =>
    cases rest with
    | nil => simp [takeDigits]
    | cons b rest => simp [takeDigits, hrest.1]
  | cons c cs ih =>
    have hc := hcs c List.mem_cons_self
    have hstep : value * 10 + digitValue (byte c) = 10 * value + (c.toNat - '0'.toNat) := by
      rw [digitValue_byte hc, Nat.mul_comm]
      rfl
    rw [Nat.ofDigitChars_cons] at hfit ⊢
    have hlt := Nat.lt_of_le_of_lt (le_ofDigitChars cs _) hfit
    rw [List.map_cons, List.cons_append, takeDigits, isDigit_byte hc, hstep,
      if_pos (by simpa using hlt), ih (fun d hd => hcs d (List.mem_cons_of_mem _ hd)) _ _ hfit,
      List.length_cons]
    simp [Nat.add_comm, Nat.add_left_comm]

theorem finishNumber_ends {ε : Type} (negative : Bool) (n : Nat) {rest : Bytes} (h : Ends rest) :
    finishNumber (ε := ε) negative n 0 rest = .ok (wholeNumber negative n, rest) := by
  cases rest with
  | nil => rfl
  | cons b rest =>
    obtain ⟨-, hexp, hpoint⟩ := h
    simp [finishNumber, hexp, hpoint]

theorem toDigits_head {n : Nat} (hn : n ≠ 0) :
    ∃ d cs, Nat.toDigits 10 n = d :: cs ∧ d ≠ '0' := by
  induction n using Nat.strongRecOn with
  | ind n ih =>
    by_cases hlt : n < 10
    · refine ⟨n.digitChar, [], Nat.toDigits_of_lt_base hlt, ?_⟩
      rwa [Ne, Nat.digitChar_eq_zero]
    · obtain ⟨d, cs, hcs, hd⟩ := ih (n / 10) (by omega) (by omega)
      refine ⟨d, cs ++ [(n % 10).digitChar], ?_, hd⟩
      rw [Nat.toDigits_of_base_le (by decide) (Nat.not_lt.1 hlt), hcs, List.cons_append]

theorem readNumber_digits {ε : Type} (negative : Bool) {n : Nat} (hn : n < 0x10000000000000000)
    {rest : Bytes} (hrest : Ends rest) :
    readNumber (ε := ε) negative ((Nat.toDigits 10 n).map byte ++ rest) =
      .ok (wholeNumber negative n, rest) := by
  have hnodigit : startsDigit rest = false := by
    cases rest with
    | nil => rfl
    | cons b rest => exact hrest.1
  by_cases hzero : n = 0
  · subst hzero
    rw [Nat.toDigits_zero, List.map_cons, List.map_nil, List.cons_append, List.nil_append,
      readNumber, if_pos (by decide), hnodigit, finishNumber_ends negative 0 hrest]
    rfl
  · obtain ⟨d, cs, hcs, hd⟩ := toDigits_head hzero
    have hdigits : ∀ c ∈ Nat.toDigits 10 n, c.isDigit = true :=
      fun c hc => Nat.isDigit_of_mem_toDigits (by decide) (by decide) hc
    have htake := takeDigits_digits hdigits hrest 0 0 (by simpa using hn)
    have hdrop : dropDigits 0 rest = (0, rest) := by
      cases rest with
      | nil => rfl
      | cons b rest => rw [dropDigits, if_neg (by simp [hrest.1])]
    rw [hcs] at htake hdigits ⊢
    have hdigit := hdigits d List.mem_cons_self
    have hbyte : (byte d == byte '0') = false := by
      have hb : (byte d).toNat = d.toNat := toNat_byte (by have := toNat_of_isDigit hdigit; omega)
      rw [beq_byte _ (by decide), hb]
      exact decide_eq_false fun h => hd (Char.toNat_inj.1 h)
    have hvalue : Nat.ofDigitChars 10 (d :: cs) 0 = n := by
      rw [← hcs, Nat.ofDigitChars_ten_toDigits]
    rw [List.map_cons, List.cons_append] at htake ⊢
    rw [readNumber, hbyte, if_neg (by decide), isDigit_byte hdigit, if_pos rfl, htake, hvalue]
    dsimp only
    rw [hdrop]
    exact finishNumber_ends negative n hrest

end FontCatalog.Json
