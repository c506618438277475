import FontCatalog.Proofs.Json.Reader

/-! Compact text is one line. Strings are escaped, numbers are made of digits, signs, points and letters, and a byte of
a new line belongs to no other character. -/
namespace FontCatalog.Json
set_option autoImplicit false
open FontCatalog.Text

/-! ## Strings -/

theorem newline_notMem_escapeChar (c : Char) : '\n' ∉ escapeChar c := by
  have hhex (n : Nat) : '\n' ≠ hexDigit n := by
    have hdigits : ∀ m < 16, '\n' ≠ Nat.digitChar m := by decide
    exact hdigits (n % 16) (Nat.mod_lt n (by decide))
  by_cases hc : '\n' = c
  · subst hc
    decide
  · unfold escapeChar
    repeat' split
    all_goals simp [hhex, hc]

theorem newline_notMem_writeText (s : String) : '\n' ∉ writeText s := by
  simp [writeText, newline_notMem_escapeChar]

/-! ## Numbers -/

theorem newline_notMem_toDigits (n : Nat) : '\n' ∉ Nat.toDigits 10 n := by
  intro h
  exact absurd (Nat.isDigit_of_mem_toDigits (by decide) (by decide) h) (by decide)

theorem newline_notMem_decimal (d : Binary64.Decimal) : '\n' ∉ d.toText.toList := by
  have hdigits := newline_notMem_toDigits d.digits
  have htake (n : Nat) : '\n' ∉ (Nat.toDigits 10 d.digits).take n := fun h => hdigits (List.mem_of_mem_take h)
  have hdrop (n : Nat) : '\n' ∉ (Nat.toDigits 10 d.digits).drop n := fun h => hdigits (List.mem_of_mem_drop h)
  have htail : '\n' ∉ (Nat.toDigits 10 d.digits).tail := fun h => hdigits (List.mem_of_mem_tail h)
  unfold Binary64.Decimal.toText
  dsimp only
  repeat' split
  all_goals simp [hdigits, htake, hdrop, htail, zeros, newline_notMem_toDigits]

theorem newline_notMem_number (n : Number) : '\n' ∉ n.toText.toList := by
  cases n with
  | integer i =>
    rw [Number.toText, toList_toString]
    split
    · exact newline_notMem_toDigits i.toNat
    · simp [newline_notMem_toDigits]
  | double negative m =>
    intro h
    rw [Number.toText, String.toList_append, List.mem_append] at h
    rcases h with h | h
    · split at h <;> exact absurd h (by decide)
    · exact newline_notMem_decimal m.shortest h

/-! ## Values -/

theorem newline_notMem_writeItems {items : List Json} (h : ∀ v ∈ items, '\n' ∉ v.write) :
    '\n' ∉ writeItems items := by
  induction items with
  | nil => simp [writeItems]
  | cons v items ih =>
    have hv := h v List.mem_cons_self
    have hrest := ih fun w hw => h w (List.mem_cons_of_mem v hw)
    simp [writeItems, hv, hrest]

theorem newline_notMem_writeMembers {members : List (String × Json)} (h : ∀ m ∈ members, '\n' ∉ m.2.write) :
    '\n' ∉ writeMembers members := by
  induction members with
  | nil => simp [writeMembers]
  | cons m members ih =>
    have hm := h m List.mem_cons_self
    have hrest := ih fun w hw => h w (List.mem_cons_of_mem m hw)
    simp [writeMembers, newline_notMem_writeText, hm, hrest]

/-- Compact text is one line. -/
theorem newline_notMem_write (v : Json) : '\n' ∉ v.write := by
  induction v using induct with
  | null => simp [write]
  | bool b => cases b <;> simp [write]
  | number n => simpa [write] using newline_notMem_number n
  | text s => simpa [write] using newline_notMem_writeText s
  | list items ih =>
    cases items with
    | nil => simp [write]
    | cons v items =>
      have hv := ih v List.mem_cons_self
      have hrest := newline_notMem_writeItems fun w hw => ih w (List.mem_cons_of_mem v hw)
      simp [write, hv, hrest]
  | object members ih =>
    cases members with
    | nil => simp [write]
    | cons m members =>
      have hm := ih m List.mem_cons_self
      have hrest := newline_notMem_writeMembers fun w hw => ih w (List.mem_cons_of_mem m hw)
      simp [write, newline_notMem_writeText, hm, hrest]

/-! ## Bytes -/

/-- Only a new line has the byte of a new line. -/
theorem eq_newline_of_mem_utf8EncodeChar {c : Char} (h : byte '\n' ∈ String.utf8EncodeChar c) : c = '\n' := by
  by_cases hascii : c.toNat ≤ 0x7F
  · rw [utf8EncodeChar_byte hascii, List.mem_singleton] at h
    have hbytes : (byte '\n' == byte c) = true := beq_iff_eq.2 h
    rw [beq_byte _ hascii, decide_eq_true_iff] at hbytes
    have hcodes : c.toNat = '\n'.toNat := hbytes.symm
    exact Char.toNat_inj.1 hcodes
  · have hlow := raw_utf8EncodeChar (c := c) (by omega) (by rintro rfl; exact hascii (by decide))
      (by rintro rfl; exact hascii (by decide)) _ h
    exact absurd hlow.1 (by decide)

theorem newline_notMem_encodeChars {cs : List Char} (h : '\n' ∉ cs) : byte '\n' ∉ encodeChars cs := by
  intro hmem
  obtain ⟨c, hc, hbyte⟩ := List.mem_flatMap.1 hmem
  rw [eq_newline_of_mem_utf8EncodeChar hbyte] at hc
  exact h hc

theorem newline_notMem_render (v : Json) : byte '\n' ∉ encode v.render := by
  rw [encode, render, String.toList_ofList]
  exact newline_notMem_encodeChars (newline_notMem_write v)

end FontCatalog.Json
