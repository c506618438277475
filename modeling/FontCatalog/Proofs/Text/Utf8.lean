import FontCatalog.Text.Utf8
import Mathlib.Data.List.Induction

/-! UTF-8 in both directions: what has been encoded is decoded to the same text, and bytes that decode
are the encoding of what they decode to. -/
namespace FontCatalog.Text
set_option autoImplicit false

/-! ## Encoding -/

@[simp] theorem encodeChars_nil : encodeChars [] = [] := rfl

@[simp] theorem encodeChars_cons (c : Char) (cs : List Char) :
    encodeChars (c :: cs) = String.utf8EncodeChar c ++ encodeChars cs := List.flatMap_cons ..

@[simp] theorem encodeChars_append (cs ds : List Char) :
    encodeChars (cs ++ ds) = encodeChars cs ++ encodeChars ds := List.flatMap_append ..

theorem encode_append (s t : String) : encode (s ++ t) = encode s ++ encode t := by
  rw [encode, String.toList_append, encodeChars_append]
  rfl

/-- The bytes of a character by its number. -/
theorem utf8EncodeChar_eq (c : Char) :
    String.utf8EncodeChar c =
      if c.toNat ≤ 0x7F then [.ofNat c.toNat]
      else if c.toNat ≤ 0x7FF then
        [.ofNat (c.toNat / 64 % 32 + 0xC0), .ofNat (c.toNat % 64 + 0x80)]
      else if c.toNat ≤ 0xFFFF then
        [.ofNat (c.toNat / 4096 % 16 + 0xE0), .ofNat (c.toNat / 64 % 64 + 0x80),
          .ofNat (c.toNat % 64 + 0x80)]
      else
        [.ofNat (c.toNat / 262144 % 8 + 0xF0), .ofNat (c.toNat / 4096 % 64 + 0x80),
          .ofNat (c.toNat / 64 % 64 + 0x80), .ofNat (c.toNat % 64 + 0x80)] := rfl

theorem utf8EncodeChar_ascii {c : Char} (h : c.toNat ≤ 0x7F) :
    String.utf8EncodeChar c = [.ofNat c.toNat] := by
  rw [utf8EncodeChar_eq, if_pos h]

theorem toNat_byte {n : Nat} (h : n < 256) : (UInt8.ofNat n).toNat = n :=
  UInt8.toNat_ofNat_of_lt' h

theorem toNat_bounds (c : Char) :
    c.toNat < 0xD800 ∨ 0xDFFF < c.toNat ∧ c.toNat < 0x110000 := c.valid

theorem toNat_ofNat {n : Nat} (h : n < 0xD800 ∨ 0xDFFF < n ∧ n < 0x110000) :
    (Char.ofNat n).toNat = n := by
  rw [Char.ofNat, dif_pos h]
  rfl

/-! ## Decoding one byte -/

/-- What a byte means where a sequence may begin, by its number. -/
theorem lead_eq (b : UInt8) :
    lead b =
      if b.toNat < 0x80 then .whole (Char.ofNat b.toNat)
      else if b.toNat < 0xC2 then .malformed
      else if b.toNat < 0xE0 then .begins ⟨b.toNat % 32, 1, 0x80, 0xBF⟩
      else if b.toNat = 0xE0 then .begins ⟨b.toNat % 16, 2, 0xA0, 0xBF⟩
      else if b.toNat = 0xED then .begins ⟨b.toNat % 16, 2, 0x80, 0x9F⟩
      else if b.toNat < 0xF0 then .begins ⟨b.toNat % 16, 2, 0x80, 0xBF⟩
      else if b.toNat = 0xF0 then .begins ⟨b.toNat % 8, 3, 0x90, 0xBF⟩
      else if b.toNat < 0xF4 then .begins ⟨b.toNat % 8, 3, 0x80, 0xBF⟩
      else if b.toNat = 0xF4 then .begins ⟨b.toNat % 8, 3, 0x80, 0x8F⟩
      else .malformed := by
  simp [lead, UInt8.lt_iff_toNat_lt, ← UInt8.toNat_inj]

section
variable {done : List (Option Char)} {bits : Nat} {low high b : UInt8}

theorem feed_whole {c : Char} (h : lead b = .whole c) :
    Decoder.feed ⟨done, none⟩ b = ⟨some c :: done, none⟩ := by
  simp only [Decoder.feed, Decoder.start, h]

theorem feed_begins {p : Pending} (h : lead b = .begins p) :
    Decoder.feed ⟨done, none⟩ b = ⟨done, some p⟩ := by
  simp only [Decoder.feed, Decoder.start, h]

theorem feed_last (hl : low.toNat ≤ b.toNat) (hh : b.toNat ≤ high.toNat) :
    Decoder.feed ⟨done, some ⟨bits, 1, low, high⟩⟩ b =
      ⟨some (Char.ofNat (bits * 64 + b.toNat % 64)) :: done, none⟩ := by
  simp [Decoder.feed, UInt8.le_iff_toNat_le, hl, hh]

theorem feed_more (missing : Nat) (hl : low.toNat ≤ b.toNat) (hh : b.toNat ≤ high.toNat) :
    Decoder.feed ⟨done, some ⟨bits, missing + 2, low, high⟩⟩ b =
      ⟨done, some ⟨bits * 64 + b.toNat % 64, missing + 1, 0x80, 0xBF⟩⟩ := by
  simp [Decoder.feed, UInt8.le_iff_toNat_le, hl, hh]

end

/-! ## Decoding what was encoded -/

theorem foldl_feed_two (done : List (Option Char)) {c : Char} (h1 : 0x7F < c.toNat)
    (h2 : c.toNat ≤ 0x7FF) :
    [UInt8.ofNat (c.toNat / 64 % 32 + 0xC0), .ofNat (c.toNat % 64 + 0x80)].foldl Decoder.feed
      ⟨done, none⟩ = ⟨some c :: done, none⟩ := by
  have ha : (UInt8.ofNat (c.toNat / 64 % 32 + 0xC0)).toNat = c.toNat / 64 + 0xC0 := by
    rw [toNat_byte (by omega)]
    omega
  have hb : (UInt8.ofNat (c.toNat % 64 + 0x80)).toNat = c.toNat % 64 + 0x80 :=
    toNat_byte (by omega)
  have hlead : lead (.ofNat (c.toNat / 64 % 32 + 0xC0)) =
      .begins ⟨c.toNat / 64, 1, 0x80, 0xBF⟩ := by
    rw [lead_eq, ha, if_neg (by omega), if_neg (by omega), if_pos (by omega)]
    congr 2
    omega
  rw [List.foldl_cons, List.foldl_cons, List.foldl_nil, feed_begins hlead,
    feed_last (by rw [hb]; exact Nat.le_add_left ..) (by rw [hb]; show _ ≤ 191; omega), hb]
  have hn : c.toNat / 64 * 64 + (c.toNat % 64 + 0x80) % 64 = c.toNat := by omega
  rw [hn, Char.ofNat_toNat]

theorem foldl_feed_three (done : List (Option Char)) {c : Char} (h1 : 0x7FF < c.toNat)
    (h2 : c.toNat ≤ 0xFFFF) :
    [UInt8.ofNat (c.toNat / 4096 % 16 + 0xE0), .ofNat (c.toNat / 64 % 64 + 0x80),
      .ofNat (c.toNat % 64 + 0x80)].foldl Decoder.feed ⟨done, none⟩ =
      ⟨some c :: done, none⟩ := by
  have hv := toNat_bounds c
  have ha : (UInt8.ofNat (c.toNat / 4096 % 16 + 0xE0)).toNat = c.toNat / 4096 + 0xE0 := by
    rw [toNat_byte (by omega)]
    omega
  have hb : (UInt8.ofNat (c.toNat / 64 % 64 + 0x80)).toNat = c.toNat / 64 % 64 + 0x80 :=
    toNat_byte (by omega)
  have hc : (UInt8.ofNat (c.toNat % 64 + 0x80)).toNat = c.toNat % 64 + 0x80 :=
    toNat_byte (by omega)
  -- the bounds of the second byte leave out overlong forms and surrogates
  have hlead : ∃ low high : UInt8, lead (.ofNat (c.toNat / 4096 % 16 + 0xE0)) =
      .begins ⟨c.toNat / 4096, 2, low, high⟩ ∧ low.toNat ≤ c.toNat / 64 % 64 + 0x80 ∧
      c.toNat / 64 % 64 + 0x80 ≤ high.toNat := by
    rw [lead_eq, ha, if_neg (by omega), if_neg (by omega), if_neg (by omega)]
    have hbits : (c.toNat / 4096 + 0xE0) % 16 = c.toNat / 4096 := by omega
    rw [hbits]
    by_cases h0 : c.toNat / 4096 = 0
    · rw [if_pos (by omega)]
      exact ⟨_, _, rfl, by show 160 ≤ _; omega, by show _ ≤ 191; omega⟩
    · rw [if_neg (by omega)]
      by_cases hd : c.toNat / 4096 = 13
      · rw [if_pos (by omega)]
        exact ⟨_, _, rfl, by show 128 ≤ _; omega, by show _ ≤ 159; omega⟩
      · rw [if_neg (by omega), if_pos (by omega)]
        exact ⟨_, _, rfl, by show 128 ≤ _; omega, by show _ ≤ 191; omega⟩
  obtain ⟨low, high, hl, hlow, hhigh⟩ := hlead
  rw [List.foldl_cons, List.foldl_cons, List.foldl_cons, List.foldl_nil, feed_begins hl,
    feed_more 0 (by rw [hb]; exact hlow) (by rw [hb]; exact hhigh),
    feed_last (by rw [hc]; exact Nat.le_add_left ..) (by rw [hc]; show _ ≤ 191; omega), hb, hc]
  have hn : (c.toNat / 4096 * 64 + (c.toNat / 64 % 64 + 0x80) % 64) * 64
      + (c.toNat % 64 + 0x80) % 64 = c.toNat := by omega
  rw [hn, Char.ofNat_toNat]

theorem foldl_feed_four (done : List (Option Char)) {c : Char} (h1 : 0xFFFF < c.toNat) :
    [UInt8.ofNat (c.toNat / 262144 % 8 + 0xF0), .ofNat (c.toNat / 4096 % 64 + 0x80),
      .ofNat (c.toNat / 64 % 64 + 0x80), .ofNat (c.toNat % 64 + 0x80)].foldl Decoder.feed
      ⟨done, none⟩ = ⟨some c :: done, none⟩ := by
  have hv := toNat_bounds c
  have ha : (UInt8.ofNat (c.toNat / 262144 % 8 + 0xF0)).toNat = c.toNat / 262144 + 0xF0 := by
    rw [toNat_byte (by omega)]
    omega
  have hb : (UInt8.ofNat (c.toNat / 4096 % 64 + 0x80)).toNat = c.toNat / 4096 % 64 + 0x80 :=
    toNat_byte (by omega)
  have hc : (UInt8.ofNat (c.toNat / 64 % 64 + 0x80)).toNat = c.toNat / 64 % 64 + 0x80 :=
    toNat_byte (by omega)
  have hd : (UInt8.ofNat (c.toNat % 64 + 0x80)).toNat = c.toNat % 64 + 0x80 :=
    toNat_byte (by omega)
  -- the bounds of the second byte leave out overlong forms and what is above the last code point
  have hlead : ∃ low high : UInt8, lead (.ofNat (c.toNat / 262144 % 8 + 0xF0)) =
      .begins ⟨c.toNat / 262144, 3, low, high⟩ ∧ low.toNat ≤ c.toNat / 4096 % 64 + 0x80 ∧
      c.toNat / 4096 % 64 + 0x80 ≤ high.toNat := by
    rw [lead_eq, ha, if_neg (by omega), if_neg (by omega), if_neg (by omega), if_neg (by omega),
      if_neg (by omega), if_neg (by omega)]
    have hbits : (c.toNat / 262144 + 0xF0) % 8 = c.toNat / 262144 := by omega
    rw [hbits]
    by_cases h0 : c.toNat / 262144 = 0
    · rw [if_pos (by omega)]
      exact ⟨_, _, rfl, by show 144 ≤ _; omega, by show _ ≤ 191; omega⟩
    · rw [if_neg (by omega)]
      by_cases h4 : c.toNat / 262144 = 4
      · rw [if_neg (by omega), if_pos (by omega)]
        exact ⟨_, _, rfl, by show 128 ≤ _; omega, by show _ ≤ 143; omega⟩
      · rw [if_pos (by omega)]
        exact ⟨_, _, rfl, by show 128 ≤ _; omega, by show _ ≤ 191; omega⟩
  obtain ⟨low, high, hl, hlow, hhigh⟩ := hlead
  rw [List.foldl_cons, List.foldl_cons, List.foldl_cons, List.foldl_cons, List.foldl_nil,
    feed_begins hl, feed_more 1 (by rw [hb]; exact hlow) (by rw [hb]; exact hhigh),
    feed_more 0 (by rw [hc]; exact Nat.le_add_left ..)
      (by rw [hc]; show _ ≤ 191; omega),
    feed_last (by rw [hd]; exact Nat.le_add_left ..) (by rw [hd]; show _ ≤ 191; omega), hb, hc, hd]
  have hn : ((c.toNat / 262144 * 64 + (c.toNat / 4096 % 64 + 0x80) % 64) * 64
      + (c.toNat / 64 % 64 + 0x80) % 64) * 64 + (c.toNat % 64 + 0x80) % 64 = c.toNat := by omega
  rw [hn, Char.ofNat_toNat]

theorem foldl_feed_encodeChar (done : List (Option Char)) (c : Char) :
    (String.utf8EncodeChar c).foldl Decoder.feed ⟨done, none⟩ = ⟨some c :: done, none⟩ := by
  rw [utf8EncodeChar_eq]
  split
  · next h1 =>
    have ha : (UInt8.ofNat c.toNat).toNat = c.toNat := toNat_byte (by omega)
    have hlead : lead (.ofNat c.toNat) = .whole c := by
      rw [lead_eq, ha, if_pos (by omega), Char.ofNat_toNat]
    exact feed_whole hlead
  · split
    · exact foldl_feed_two done (by omega) (by omega)
    · split
      · exact foldl_feed_three done (by omega) (by omega)
      · exact foldl_feed_four done (by omega)

theorem foldl_feed_encodeChars (done : List (Option Char)) (cs : List Char) :
    (encodeChars cs).foldl Decoder.feed ⟨done, none⟩ = ⟨(cs.map some).reverse ++ done, none⟩ := by
  induction cs generalizing done with
  | nil => rfl
  | cons c cs ih =>
    rw [encodeChars_cons, List.foldl_append, foldl_feed_encodeChar, ih]
    simp

theorem decode?_encodeChars (cs : List Char) : decode? (encodeChars cs) = some (String.ofList cs) := by
  have hp : pieces (encodeChars cs) = cs.map some := by
    rw [pieces, foldl_feed_encodeChars]
    simp [Decoder.finish]
  simp [decode?, hp]

theorem decode?_encode (s : String) : decode? (encode s) = some s := by
  rw [encode, decode?_encodeChars, String.ofList_toList]

/-! ## Encoding what was decoded -/

theorem ofNat_eq_of_toNat {b : UInt8} {n : Nat} (h : n = b.toNat) : UInt8.ofNat n = b := by
  rw [h, UInt8.ofNat_toNat]

section
variable {a b c d : UInt8} {n : Nat}

theorem encode_two (ha : 0xC2 ≤ a.toNat ∧ a.toNat < 0xE0) (hb : 0x80 ≤ b.toNat ∧ b.toNat ≤ 0xBF)
    (hn : n = a.toNat % 32 * 64 + b.toNat % 64) :
    String.utf8EncodeChar (Char.ofNat n) = [a, b] := by
  rw [utf8EncodeChar_eq, toNat_ofNat (by omega), if_neg (by omega), if_pos (by omega),
    ofNat_eq_of_toNat (b := a) (by omega), ofNat_eq_of_toNat (b := b) (by omega)]

theorem encode_three (ha : 0xE0 ≤ a.toNat ∧ a.toNat < 0xF0)
    (hb : 0x80 ≤ b.toNat ∧ b.toNat ≤ 0xBF) (hc : 0x80 ≤ c.toNat ∧ c.toNat ≤ 0xBF)
    (hn : n = (a.toNat % 16 * 64 + b.toNat % 64) * 64 + c.toNat % 64)
    (hlow : 0x7FF < n) (hgap : n < 0xD800 ∨ 0xDFFF < n) :
    String.utf8EncodeChar (Char.ofNat n) = [a, b, c] := by
  rw [utf8EncodeChar_eq, toNat_ofNat (by omega), if_neg (by omega), if_neg (by omega),
    if_pos (by omega), ofNat_eq_of_toNat (b := a) (by omega), ofNat_eq_of_toNat (b := b) (by omega),
    ofNat_eq_of_toNat (b := c) (by omega)]

theorem encode_four (ha : 0xF0 ≤ a.toNat ∧ a.toNat < 0xF5)
    (hb : 0x80 ≤ b.toNat ∧ b.toNat ≤ 0xBF) (hc : 0x80 ≤ c.toNat ∧ c.toNat ≤ 0xBF)
    (hd : 0x80 ≤ d.toNat ∧ d.toNat ≤ 0xBF)
    (hn : n = ((a.toNat % 8 * 64 + b.toNat % 64) * 64 + c.toNat % 64) * 64 + d.toNat % 64)
    (hlow : 0xFFFF < n) (hhigh : n < 0x110000) :
    String.utf8EncodeChar (Char.ofNat n) = [a, b, c, d] := by
  rw [utf8EncodeChar_eq, toNat_ofNat (by omega), if_neg (by omega), if_neg (by omega),
    if_neg (by omega), ofNat_eq_of_toNat (b := a) (by omega), ofNat_eq_of_toNat (b := b) (by omega),
    ofNat_eq_of_toNat (b := c) (by omega), ofNat_eq_of_toNat (b := d) (by omega)]

end

/-- The bytes `bs` begin a sequence of which so many bytes are missing: with bytes within the bounds it
becomes the encoding of the character that is then read. -/
def Begun : Nat → Nat → UInt8 → UInt8 → Bytes → Prop
  | 0, _, _, _, _ => False
  | 1, bits, low, high, bs => ∀ b : UInt8, low.toNat ≤ b.toNat → b.toNat ≤ high.toNat →
    String.utf8EncodeChar (Char.ofNat (bits * 64 + b.toNat % 64)) = bs ++ [b]
  | missing + 2, bits, low, high, bs => ∀ b : UInt8, low.toNat ≤ b.toNat → b.toNat ≤ high.toNat →
    Begun (missing + 1) (bits * 64 + b.toNat % 64) 0x80 0xBF (bs ++ [b])

theorem begun_three {a low high : UInt8} (ha : 0xE0 ≤ a.toNat ∧ a.toNat < 0xF0)
    (hl : 0x80 ≤ low.toNat) (hh : high.toNat ≤ 0xBF)
    (hfit : ∀ n, low.toNat ≤ n → n ≤ high.toNat →
      0x20 ≤ a.toNat % 16 * 64 + n % 64 ∧
        (a.toNat % 16 * 64 + n % 64 < 0x360 ∨ 0x37F < a.toNat % 16 * 64 + n % 64)) :
    Begun 2 (a.toNat % 16) low high [a] := by
  intro b hbl hbh c hcl hch
  have hcl : 128 ≤ c.toNat := hcl
  have hch : c.toNat ≤ 191 := hch
  have hf := hfit b.toNat hbl hbh
  exact encode_three ha (by omega) (by omega) rfl (by omega) (by omega)

theorem begun_four {a low high : UInt8} (ha : 0xF0 ≤ a.toNat ∧ a.toNat < 0xF5)
    (hl : 0x80 ≤ low.toNat) (hh : high.toNat ≤ 0xBF)
    (hfit : ∀ n, low.toNat ≤ n → n ≤ high.toNat →
      0x10 ≤ a.toNat % 8 * 64 + n % 64 ∧ a.toNat % 8 * 64 + n % 64 < 0x110) :
    Begun 3 (a.toNat % 8) low high [a] := by
  intro b hbl hbh c hcl hch d hdl hdh
  have hcl : 128 ≤ c.toNat := hcl
  have hch : c.toNat ≤ 191 := hch
  have hdl : 128 ≤ d.toNat := hdl
  have hdh : d.toNat ≤ 191 := hdh
  have hf := hfit b.toNat hbl hbh
  exact encode_four ha (by omega) (by omega) (by omega) rfl (by omega) (by omega)

theorem begun_of_lead {a : UInt8} {p : Pending} (h : lead a = .begins p) :
    Begun p.missing p.bits p.low p.high [a] := by
  have h80 : (0x80 : UInt8).toNat = 128 := rfl
  have h8f : (0x8F : UInt8).toNat = 143 := rfl
  have h90 : (0x90 : UInt8).toNat = 144 := rfl
  have h9f : (0x9F : UInt8).toNat = 159 := rfl
  have ha0 : (0xA0 : UInt8).toNat = 160 := rfl
  have hbf : (0xBF : UInt8).toNat = 191 := rfl
  rw [lead_eq] at h
  split at h
  · cases h
  · split at h
    · cases h
    · split at h
      · cases h
        show Begun 1 (a.toNat % 32) 0x80 0xBF [a]
        intro b hbl hbh
        exact encode_two (by omega) (by omega) rfl
      · repeat' split at h
        all_goals cases h
        · show Begun 2 (a.toNat % 16) 0xA0 0xBF [a]
          exact begun_three (by omega) (by omega) (by omega) (by omega)
        · show Begun 2 (a.toNat % 16) 0x80 0x9F [a]
          exact begun_three (by omega) (by omega) (by omega) (by omega)
        · show Begun 2 (a.toNat % 16) 0x80 0xBF [a]
          exact begun_three (by omega) (by omega) (by omega) (by omega)
        · show Begun 3 (a.toNat % 8) 0x90 0xBF [a]
          exact begun_four (by omega) (by omega) (by omega) (by omega)
        · show Begun 3 (a.toNat % 8) 0x80 0xBF [a]
          exact begun_four (by omega) (by omega) (by omega) (by omega)
        · show Begun 3 (a.toNat % 8) 0x80 0x8F [a]
          exact begun_four (by omega) (by omega) (by omega) (by omega)

theorem encode_of_whole {b : UInt8} {c : Char} (h : lead b = .whole c) :
    String.utf8EncodeChar c = [b] := by
  rw [lead_eq] at h
  split at h
  · cases h
    rw [utf8EncodeChar_ascii, toNat_ofNat (by omega), UInt8.ofNat_toNat]
    rw [toNat_ofNat (by omega)]
    omega
  · repeat' split at h
    all_goals cases h

/-- So far `bs` has been read, and all of it was well formed. -/
def Decoder.Holds (d : Decoder) (bs : Bytes) : Prop :=
  ∃ cs begun, d.done = (cs.map some).reverse ∧ bs = encodeChars cs ++ begun ∧
    match d.pending with
    | none => begun = []
    | some p => Begun p.missing p.bits p.low p.high begun

theorem Decoder.start_holds (cs : List Char) (b : UInt8) :
    (Decoder.start (cs.map some).reverse b).Holds (encodeChars cs ++ [b]) ∨
      none ∈ (Decoder.start (cs.map some).reverse b).done := by
  unfold Decoder.start
  split
  · next c h =>
    refine .inl ⟨cs ++ [c], [], ?_, ?_, rfl⟩
    · simp
    · simp [encode_of_whole h]
  · next p h => exact .inl ⟨cs, [b], rfl, rfl, begun_of_lead h⟩
  · exact .inr List.mem_cons_self

theorem Decoder.feed_holds {d : Decoder} {bs : Bytes} (h : d.Holds bs) (b : UInt8) :
    (d.feed b).Holds (bs ++ [b]) ∨ none ∈ (d.feed b).done := by
  obtain ⟨cs, begun, hdone, rfl, hp⟩ := h
  obtain ⟨done, pending⟩ := d
  subst hdone
  cases pending with
  | none =>
    subst hp
    rw [List.append_nil]
    exact Decoder.start_holds cs b
  | some p =>
    obtain ⟨bits, missing, low, high⟩ := p
    by_cases hb : low.toNat ≤ b.toNat ∧ b.toNat ≤ high.toNat
    · left
      match missing, hp with
      | 1, hp =>
        rw [feed_last hb.1 hb.2]
        refine ⟨cs ++ [Char.ofNat (bits * 64 + b.toNat % 64)], [], ?_, ?_, rfl⟩
        · simp
        · simp [hp b hb.1 hb.2]
      | missing + 2, hp =>
        rw [feed_more missing hb.1 hb.2]
        exact ⟨cs, begun ++ [b], rfl, by simp, hp b hb.1 hb.2⟩
    · right
      have hout : (low ≤ b && b ≤ high) = false := by
        simpa [UInt8.le_iff_toNat_le] using hb
      simp only [Decoder.feed, hout, Bool.false_eq_true, if_false, Decoder.start]
      split <;> simp

theorem Decoder.feed_mem_none {d : Decoder} (h : none ∈ d.done) (b : UInt8) :
    none ∈ (d.feed b).done := by
  have hstart : ∀ done : List (Option Char), none ∈ done → none ∈ (Decoder.start done b).done := by
    intro done h
    unfold Decoder.start
    split <;> simp [h]
  unfold Decoder.feed
  split
  · exact hstart _ h
  · split
    · dsimp only
      split <;> simp [h]
    · exact hstart _ (List.mem_cons_of_mem _ h)

theorem Decoder.foldl_feed_holds (bs : Bytes) :
    (bs.foldl Decoder.feed ⟨[], none⟩).Holds bs ∨
      none ∈ (bs.foldl Decoder.feed ⟨[], none⟩).done := by
  induction bs using List.reverseRecOn with
  | nil => exact .inl ⟨[], [], rfl, rfl, rfl⟩
  | append_singleton bs b ih =>
    rw [List.foldl_append, List.foldl_cons, List.foldl_nil]
    rcases ih with ih | ih
    · exact Decoder.feed_holds ih b
    · exact .inr (Decoder.feed_mem_none ih b)

/-- Bytes that decode are the encoding of the text. -/
theorem encode_of_decode? {bs : Bytes} {s : String} (h : decode? bs = some s) : encode s = bs := by
  dsimp only [decode?] at h
  split at h
  · next hall =>
    cases h
    rw [encode, String.toList_ofList]
    rcases Decoder.foldl_feed_holds bs with hd | hd
    · obtain ⟨cs, begun, hdone, hbs, hp⟩ := hd
      unfold pieces Decoder.finish at hall ⊢
      split at hall
      · next hnone =>
        rw [hnone] at hp
        subst hp
        rw [hdone, List.reverse_reverse, List.filterMap_map]
        simpa using hbs.symm
      · simp at hall
    · unfold pieces Decoder.finish at hall
      rw [List.all_reverse, List.all_eq_true] at hall
      split at hall
      · exact absurd (hall none hd) (by decide)
      · exact absurd (hall none List.mem_cons_self) (by decide)
  · cases h

end FontCatalog.Text
