import FontCatalog.Wire.Frame
import Mathlib.Data.List.Basic

/-! A frame is read back as its payload, from one stretch of bytes and from chunks alike: how the bytes
are cut into chunks does not matter. -/
namespace FontCatalog.Wire
set_option autoImplicit false

/-! ## Lengths -/

theorem length_encodeLength (n : Nat) : (encodeLength n).length = 4 := rfl

theorem decodeLength_cons (b : UInt8) (bs : Bytes) :
    decodeLength (b :: bs) = b.toNat + 256 * decodeLength bs := rfl

theorem decodeLength_encodeLength {n : Nat} (h : n ≤ maxLength) :
    decodeLength (encodeLength n) = n := by
  have hbyte (m : Nat) : m.toUInt8.toNat = m % 256 := UInt8.toNat_ofNat'
  have hn : n ≤ 4294967295 := h
  simp only [decodeLength, encodeLength, List.foldr_cons, List.foldr_nil, hbyte]
  omega

theorem decodeLength_le {header : Bytes} (h : header.length = 4) : decodeLength header ≤ maxLength := by
  obtain ⟨a, b, c, d, rfl⟩ := List.length_eq_four.1 h
  have ha := a.toNat_lt
  have hb := b.toNat_lt
  have hc := c.toNat_lt
  have hd := d.toNat_lt
  simp only [decodeLength, List.foldr_cons, List.foldr_nil, maxLength]
  omega

theorem encodeLength_decodeLength {header : Bytes} (h : header.length = 4) :
    encodeLength (decodeLength header) = header := by
  obtain ⟨a, b, c, d, rfl⟩ := List.length_eq_four.1 h
  have ha := a.toNat_lt
  have hb := b.toNat_lt
  have hc := c.toNat_lt
  have hd := d.toNat_lt
  have hbyte (x : UInt8) (n : Nat) (hn : n % 256 = x.toNat) : n.toUInt8 = x := by
    apply UInt8.toNat_inj.1
    rw [← hn]
    exact UInt8.toNat_ofNat'
  simp only [decodeLength, encodeLength, List.foldr_cons, List.foldr_nil]
  rw [hbyte a, hbyte b, hbyte c, hbyte d] <;> omega

theorem hasAtLeast_eq (n : Nat) (bs : Bytes) : hasAtLeast n bs = decide (n ≤ bs.length) := by
  induction bs generalizing n with
  | nil => cases n <;> simp [hasAtLeast]
  | cons b bs ih =>
    cases n with
    | zero => simp [hasAtLeast]
    | succ n => simp [hasAtLeast, ih]

/-! ## From one stretch of bytes -/

/-- The bytes of a frame. -/
def frame (payload : Bytes) : Bytes := encodeLength payload.length ++ payload

theorem length_frame (payload : Bytes) : (frame payload).length = 4 + payload.length := by
  rw [frame, List.length_append, length_encodeLength]

theorem writeFrame_eq {payload : Bytes} (h : payload.length ≤ maxLength) :
    writeFrame payload = .ok (frame payload) := if_pos h

theorem take_frame (payload rest : Bytes) :
    (frame payload ++ rest).take 4 = encodeLength payload.length := by
  rw [frame, List.append_assoc]
  exact List.take_left' (length_encodeLength _)

theorem drop_frame (payload rest : Bytes) : (frame payload ++ rest).drop 4 = payload ++ rest := by
  rw [frame, List.append_assoc]
  exact List.drop_left' (length_encodeLength _)

theorem readFrame_frame {max : Nat} {payload : Bytes} (hfits : payload.length ≤ maxLength)
    (hmax : payload.length ≤ max) (rest : Bytes) :
    readFrame max (frame payload ++ rest) = .ok (payload, rest) := by
  have hfour : hasAtLeast 4 (frame payload ++ rest) = true := by
    rw [hasAtLeast_eq, decide_eq_true_iff, List.length_append, length_frame]
    omega
  have hall : hasAtLeast payload.length (payload ++ rest) = true := by
    rw [hasAtLeast_eq, decide_eq_true_iff, List.length_append]
    exact Nat.le_add_right ..
  rw [readFrame, hfour, take_frame, drop_frame, decodeLength_encodeLength hfits]
  simp [hall, Nat.not_lt.2 hmax]

/-- What reading a frame gives, by how many bytes there are. -/
theorem readFrame_eq (max : Nat) (bs : Bytes) :
    readFrame max bs =
      if bs.length < 4 then .error (.cut .buffer)
      else if max < decodeLength (bs.take 4) then
        .error (.frameTooLarge (decodeLength (bs.take 4)) max)
      else if bs.length < 4 + decodeLength (bs.take 4) then .error (.cut .buffer)
      else .ok ((bs.drop 4).take (decodeLength (bs.take 4)), bs.drop (4 + decodeLength (bs.take 4))) := by
  have hfour : (!hasAtLeast 4 bs) = decide (bs.length < 4) := by
    rw [hasAtLeast_eq, ← decide_not, decide_eq_decide]
    omega
  have hall : (!hasAtLeast (decodeLength (bs.take 4)) (bs.drop 4)) =
      decide (bs.length - 4 < decodeLength (bs.take 4)) := by
    rw [hasAtLeast_eq, ← decide_not, decide_eq_decide, List.length_drop]
    omega
  rw [readFrame, hfour]
  dsimp only
  rw [hall, List.drop_drop]
  by_cases h4 : bs.length < 4
  · rw [if_pos h4, if_pos (decide_eq_true h4)]
  · have hiff : bs.length - 4 < decodeLength (bs.take 4) ↔
        bs.length < 4 + decodeLength (bs.take 4) := by omega
    simp only [h4, hiff, decide_false, decide_eq_true_eq, Bool.false_eq_true, if_false]

theorem header_take_frame (payload : Bytes) {n : Nat} (hn : 4 ≤ n) :
    ((frame payload).take n).take 4 = encodeLength payload.length := by
  rw [List.take_take, Nat.min_eq_left hn]
  exact List.take_left' (length_encodeLength _)

/-- A frame is read only when all of it has come. -/
theorem readFrame_cut {max n : Nat} {payload : Bytes} (hfits : payload.length ≤ maxLength)
    (hn : n < (frame payload).length) (hmax : n < 4 ∨ payload.length ≤ max) :
    readFrame max ((frame payload).take n) = .error (.cut .buffer) := by
  have hlength : ((frame payload).take n).length = n := by
    rw [List.length_take]
    omega
  rw [readFrame_eq, hlength]
  by_cases hfour : n < 4
  · rw [if_pos hfour]
  · rw [length_frame] at hn
    rw [header_take_frame payload (Nat.not_lt.1 hfour), decodeLength_encodeLength hfits, if_neg hfour,
      if_neg (Nat.not_lt.2 (hmax.resolve_left hfour)), if_pos hn]

/-- That a frame is too long is known from its length. -/
theorem readFrame_tooLarge {max n : Nat} {payload : Bytes} (hfits : payload.length ≤ maxLength)
    (hn : 4 ≤ n) (hmax : max < payload.length) :
    readFrame max ((frame payload).take n) = .error (.frameTooLarge payload.length max) := by
  have hfour : ¬ ((frame payload).take n).length < 4 := by
    rw [List.length_take, length_frame]
    omega
  rw [readFrame_eq, header_take_frame payload hn, decodeLength_encodeLength hfits, if_neg hfour,
    if_pos hmax]

/-! ## From chunks -/

theorem pull_flatten {n : Nat} (hn : n ≠ 0) (chunks : List Bytes) :
    (pull n chunks).1 ++ (pull n chunks).2.flatten = chunks.flatten ∧ (pull n chunks).1.length ≤ n ∧
      ((pull n chunks).1 = [] → chunks.flatten = []) := by
  induction chunks with
  | nil => exact ⟨rfl, Nat.zero_le n, fun _ => rfl⟩
  | cons chunk chunks ih =>
    cases chunk with
    | nil => exact ih
    | cons b chunk =>
      refine ⟨?_, List.length_take_le .., fun h => ?_⟩
      · rw [pull, List.flatten_cons, List.flatten_cons, ← List.append_assoc, List.take_append_drop]
      · rw [pull, List.take_eq_nil_iff] at h
        rcases h with h | h
        · exact absurd h hn
        · cases h

/-- Filling takes so many bytes from the front of what all chunks hold. -/
theorem fill_flatten {fuel n : Nat} (h : n ≤ fuel) (acc : Bytes) (chunks : List Bytes) :
    (fill fuel n acc chunks).1 = acc ++ chunks.flatten.take n ∧
      (fill fuel n acc chunks).2.flatten = chunks.flatten.drop n := by
  induction fuel generalizing n acc chunks with
  | zero =>
    obtain rfl : n = 0 := Nat.le_zero.1 h
    simp [fill]
  | succ fuel ih =>
    rw [fill]
    by_cases hn : n = 0
    · subst hn
      simp
    · obtain ⟨hcut, hlength, hend⟩ := pull_flatten hn chunks
      rw [if_neg hn]
      cases hpull : pull n chunks with
      | mk got left =>
        rw [hpull] at hcut hlength hend
        dsimp only at hcut hlength hend ⊢
        cases got with
        | nil =>
          have hempty := hend rfl
          rw [hempty] at hcut ⊢
          simpa using hcut
        | cons b got =>
          dsimp only
          have hfuel : n - (b :: got).length ≤ fuel := by
            rw [List.length_cons]
            omega
          obtain ⟨hfirst, hsecond⟩ := ih hfuel (acc ++ b :: got) left
          rw [hfirst, hsecond, ← hcut, List.take_append, List.drop_append,
            List.take_of_length_le hlength, List.drop_of_length_le hlength, List.append_assoc,
            List.nil_append]
          exact ⟨rfl, rfl⟩

/-- What chunks give, by how many bytes there are in all. -/
theorem receiveFrame_eq (max : Nat) {chunks : List Bytes} {bs : Bytes} (h : chunks.flatten = bs) :
    ∃ left, left.flatten = bs.drop (4 + decodeLength (bs.take 4)) ∧
      receiveFrame max chunks =
        if bs = [] then .ok none
        else if bs.length < 4 then .error (.cut .header)
        else if max < decodeLength (bs.take 4) then
          .error (.frameTooLarge (decodeLength (bs.take 4)) max)
        else if bs.length < 4 + decodeLength (bs.take 4) then .error (.cut .payload)
        else .ok (some ((bs.drop 4).take (decodeLength (bs.take 4)), left)) := by
  generalize hn : decodeLength (bs.take 4) = n
  obtain ⟨hhead, htail⟩ := fill_flatten (Nat.le_refl 4) [] chunks
  obtain ⟨header, chunks', hfill⟩ : ∃ header chunks', fill 4 4 [] chunks = (header, chunks') := ⟨_, _, rfl⟩
  obtain ⟨body, left, hfill'⟩ : ∃ body left, fill n n [] chunks' = (body, left) := ⟨_, _, rfl⟩
  obtain ⟨hbody, hrest⟩ := fill_flatten (Nat.le_refl n) [] chunks'
  rw [hfill, h, List.nil_append] at hhead
  rw [hfill, h] at htail
  rw [hfill', htail, List.nil_append] at hbody
  rw [hfill', htail, List.drop_drop] at hrest
  dsimp only at hhead hbody hrest
  have hempty : header.isEmpty = true ↔ bs = [] := by
    rw [hhead, List.isEmpty_iff, List.take_eq_nil_iff]
    simp
  have hheader : header.length < 4 ↔ bs.length < 4 := by
    rw [hhead, List.length_take]
    omega
  have hshort : ¬bs.length < 4 → (body.length < n ↔ bs.length < 4 + n) := by
    rw [hbody, List.length_take, List.length_drop]
    omega
  have hlength : decodeLength header = n := by rw [hhead, hn]
  refine ⟨left, hrest, ?_⟩
  rw [receiveFrame, hfill]
  dsimp only
  rw [hlength, hfill', ← hbody]
  dsimp only
  simp only [hempty, hheader]
  by_cases hfour : bs.length < 4
  · simp only [hfour, if_true]
  · simp only [hfour, hshort hfour, if_false]

theorem receiveFrame_frame {max : Nat} {payload rest : Bytes} {chunks : List Bytes}
    (hfits : payload.length ≤ maxLength) (hmax : payload.length ≤ max)
    (h : chunks.flatten = frame payload ++ rest) :
    ∃ left, receiveFrame max chunks = .ok (some (payload, left)) ∧ left.flatten = rest := by
  obtain ⟨left, hleft, hreceive⟩ := receiveFrame_eq max h
  have hlength : (frame payload ++ rest).length = 4 + payload.length + rest.length := by
    rw [List.length_append, length_frame]
  have hsome : frame payload ++ rest ≠ [] := by
    intro hnone
    rw [hnone] at hlength
    simp at hlength
    omega
  rw [take_frame, decodeLength_encodeLength hfits] at hleft hreceive
  rw [← List.drop_drop, drop_frame, List.drop_left] at hleft
  rw [drop_frame, List.take_left, hlength, if_neg hsome, if_neg (by omega), if_neg (by omega),
    if_neg (by omega)] at hreceive
  exact ⟨left, hreceive, hleft⟩

theorem receiveFrame_nothing (max : Nat) {chunks : List Bytes} (h : chunks.flatten = []) :
    receiveFrame max chunks = .ok none := by
  obtain ⟨left, -, hreceive⟩ := receiveFrame_eq max h
  exact hreceive

end FontCatalog.Wire
