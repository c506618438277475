import FontCatalog.Proofs.Wire.Frame

/-! What reading leaves of a stream that is not in step: from any bytes before it, a frame can be chosen
so that reading on, without ever waiting in vain, comes to the beginning of an empty frame. -/
namespace FontCatalog.Wire
set_option autoImplicit false

/-! ## One read -/

/-- What one read leaves of a stream, if it need not wait: of a frame that is too long only the length
is read. -/
def rest? (max : Nat) (bs : Bytes) : Option Bytes :=
  match readFrame max bs with
  | .ok (_, rest) => some rest
  | .error (.cut _) => none
  | .error _ => some (bs.drop 4)

theorem rest?_frame {max : Nat} {payload : Bytes} (hfits : payload.length ≤ maxLength)
    (hmax : payload.length ≤ max) (rest : Bytes) : rest? max (frame payload ++ rest) = some rest := by
  rw [rest?, readFrame_frame hfits hmax]

theorem rest?_eq (max : Nat) (bs : Bytes) :
    rest? max bs =
      if bs.length < 4 then none
      else if max < decodeLength (bs.take 4) then some (bs.drop 4)
      else if bs.length < 4 + decodeLength (bs.take 4) then none
      else some (bs.drop (4 + decodeLength (bs.take 4))) := by
  rw [rest?, readFrame_eq]
  by_cases hfour : bs.length < 4
  · rw [if_pos hfour, if_pos hfour]
  · rw [if_neg hfour, if_neg hfour]
    by_cases hbig : max < decodeLength (bs.take 4)
    · rw [if_pos hbig, if_pos hbig]
    · rw [if_neg hbig, if_neg hbig]
      by_cases hall : bs.length < 4 + decodeLength (bs.take 4)
      · rw [if_pos hall, if_pos hall]
      · rw [if_neg hall, if_neg hall]

/-- Of a frame that is too long only the length is read. -/
theorem rest?_long {max : Nat} {header : Bytes} (hfour : header.length = 4)
    (h : max < decodeLength header) (bs : Bytes) : rest? max (header ++ bs) = some bs := by
  have htake : (header ++ bs).take 4 = header := List.take_left' hfour
  have hdrop : (header ++ bs).drop 4 = bs := List.drop_left' hfour
  rw [rest?_eq, htake, hdrop, if_neg (by rw [List.length_append]; omega), if_pos h]

/-- More bytes at the end stay where they are. -/
theorem rest?_append {max : Nat} {bs rest : Bytes} (h : rest? max bs = some rest) (more : Bytes) :
    rest? max (bs ++ more) = some (rest ++ more) := by
  rw [rest?_eq] at h ⊢
  split at h
  · cases h
  · next hfour =>
    have hle : 4 ≤ bs.length := Nat.not_lt.1 hfour
    rw [List.take_append_of_le_length hle, if_neg (by rw [List.length_append]; omega)]
    split at h
    · next hbig =>
      cases h
      rw [if_pos hbig, List.drop_append_of_le_length hle]
    · next hbig =>
      rw [if_neg hbig]
      split at h
      · cases h
      · next hall =>
        cases h
        rw [if_neg (by rw [List.length_append]; omega), List.drop_append_of_le_length (Nat.not_lt.1 hall)]

/-! ## Many reads -/

/-- What so many reads leave. -/
def drain? (max : Nat) : Nat → Bytes → Option Bytes
  | 0, bs => some bs
  | k + 1, bs => (rest? max bs).bind (drain? max k)

theorem drain?_append {max k : Nat} {bs rest : Bytes} (h : drain? max k bs = some rest)
    (more : Bytes) : drain? max k (bs ++ more) = some (rest ++ more) := by
  induction k generalizing bs with
  | zero =>
    cases h
    rfl
  | succ k ih =>
    obtain ⟨left, hleft, hrest⟩ := Option.bind_eq_some_iff.1 h
    rw [drain?, rest?_append hleft]
    exact ih hrest

theorem drain?_frame {max k : Nat} {payload bs rest : Bytes} (hfits : payload.length ≤ maxLength)
    (hmax : payload.length ≤ max) (h : drain? max k bs = some rest) :
    drain? max (k + 1) (frame payload ++ bs) = some rest := by
  rw [drain?, rest?_frame hfits hmax]
  exact h

/-! ## Coming to an empty frame -/

/-- So many zeros. -/
def blanks (n : Nat) : Bytes := List.replicate n 0

theorem frame_nil : frame [] = blanks 4 := rfl

/-- A frame of zeros ends in four more zeros than its payload is long. -/
theorem drop_frame_blanks (n : Nat) : (frame (blanks n)).drop n = blanks 4 := by
  by_cases h : n < 4
  · have hsmall : ∀ m < 4, (frame (blanks m)).drop m = blanks 4 := by decide
    exact hsmall n h
  · have hlength : (encodeLength (blanks n).length).length ≤ n := by
      rw [length_encodeLength]
      omega
    rw [frame, List.drop_append, List.drop_of_length_le hlength, List.nil_append, length_encodeLength,
      blanks, List.drop_replicate]
    exact congrArg blanks (by omega)

theorem length_blanks (n : Nat) : (blanks n).length = n := List.length_replicate ..

/-- The payload of a frame that is read as too long with a few bytes before it: it completes an empty
frame with `n` zeros, and goes on with one more frame and another empty one. -/
def bait (n size : Nat) : Bytes := blanks n ++ (frame (blanks size) ++ frame [])

theorem length_bait (n size : Nat) : (bait n size).length = n + size + 8 := by
  simp only [bait, List.length_append, length_frame, length_blanks, List.length_nil]
  omega

theorem bait_succ (n size : Nat) : bait (n + 1) size = 0 :: bait n size := rfl

theorem drain?_bait (size : Nat) (hsize : size ≤ defaultMaxFrame) {bs : Bytes}
    (h : rest? defaultMaxFrame bs = some (bait 4 size)) :
    drain? defaultMaxFrame 3 bs = some (frame []) := by
  have hmax : (blanks size).length ≤ defaultMaxFrame := by rwa [length_blanks]
  have hlast : drain? defaultMaxFrame 1 (frame (blanks size) ++ frame []) = some (frame []) :=
    drain?_frame (Nat.le_trans hmax (by decide)) hmax rfl
  have hboth : drain? defaultMaxFrame 2 (frame [] ++ (frame (blanks size) ++ frame [])) =
      some (frame []) := drain?_frame (Nat.zero_le _) (Nat.zero_le _) hlast
  rw [drain?, h, Option.bind_some, bait, ← frame_nil]
  exact hboth

theorem exists_frame_after_of (n size : Nat) {few header : Bytes} (hn : n ≤ 4)
    (hsize : size ≤ 20000) (hstream : few ++ frame (bait n size) = header ++ bait 4 size)
    (hfour : header.length = 4) (hlong : defaultMaxFrame < decodeLength header) :
    ∃ payload : Bytes, payload.length ≤ defaultMaxFrame ∧
      drain? defaultMaxFrame 3 (few ++ frame payload) = some (frame []) := by
  have hmax : 20012 ≤ defaultMaxFrame := by decide
  refine ⟨bait n size, by rw [length_bait]; omega, drain?_bait size (by omega) ?_⟩
  rw [hstream, rest?_long hfour hlong]

/-- With up to three bytes before it, a frame may be read as one that is too long, so that what follows
its length is read as more frames. -/
theorem exists_frame_after_few {few : Bytes} (hfew : few ≠ []) (hlength : few.length < 4) :
    ∃ payload : Bytes, payload.length ≤ defaultMaxFrame ∧
      drain? defaultMaxFrame 3 (few ++ frame payload) = some (frame []) := by
  match few, hfew, hlength with
  | [a], _, _ =>
    have hframe : frame (bait 3 20000) = [43, 78, 0, 0] ++ bait 3 20000 := by
      rw [frame, length_bait]
      rfl
    have hstream : [a] ++ frame (bait 3 20000) = [a, 43, 78, 0] ++ bait 4 20000 := by
      rw [hframe, bait_succ 3]
      rfl
    have htail : decodeLength [43, 78, 0] = 20011 := by decide
    refine exists_frame_after_of 3 20000 (by decide) (by decide) hstream rfl ?_
    rw [decodeLength_cons, htail, defaultMaxFrame]
    omega
  | [a, b], _, _ =>
    have hframe : frame (bait 2 200) = [210, 0, 0, 0] ++ bait 2 200 := by
      rw [frame, length_bait]
      rfl
    have hstream : [a, b] ++ frame (bait 2 200) = [a, b, 210, 0] ++ bait 4 200 := by
      rw [hframe, bait_succ 3, bait_succ 2]
      rfl
    have htail : decodeLength [210, 0] = 210 := by decide
    refine exists_frame_after_of 2 200 (by decide) (by decide) hstream rfl ?_
    rw [decodeLength_cons, decodeLength_cons, htail, defaultMaxFrame]
    omega
  | [a, b, c], _, _ =>
    have hframe : frame (bait 1 200) = [209, 0, 0, 0] ++ bait 1 200 := by
      rw [frame, length_bait]
      rfl
    have hstream : [a, b, c] ++ frame (bait 1 200) = [a, b, c, 209] ++ bait 4 200 := by
      rw [hframe, bait_succ 3, bait_succ 2, bait_succ 1]
      rfl
    have htail : decodeLength [209] = 209 := by decide
    refine exists_frame_after_of 1 200 (by decide) (by decide) hstream rfl ?_
    rw [decodeLength_cons, decodeLength_cons, decodeLength_cons, htail, defaultMaxFrame]
    omega

/-- Whatever stands before it, a frame may be chosen so that some reads come to an empty frame. -/
theorem exists_frame_after (bs : Bytes) :
    ∃ (payload : Bytes) (k : Nat), payload.length ≤ defaultMaxFrame ∧
      drain? defaultMaxFrame k (bs ++ frame payload) = some (frame []) := by
  induction hn : bs.length using Nat.strongRecOn generalizing bs with
  | ind n ih =>
    by_cases hnil : bs = []
    · exact ⟨[], 0, Nat.zero_le _, by rw [hnil]; rfl⟩
    by_cases hfew : bs.length < 4
    · obtain ⟨payload, hmax, hdrain⟩ := exists_frame_after_few hnil hfew
      exact ⟨payload, 3, hmax, hdrain⟩
    -- One read takes bytes from the front: the length of a long frame, or a frame.
    have hstep (m : Nat) (hm : 0 < m) (hle : m ≤ bs.length)
        (hrest : ∀ more, rest? defaultMaxFrame (bs ++ more) = some (bs.drop m ++ more)) :
        ∃ (payload : Bytes) (k : Nat), payload.length ≤ defaultMaxFrame ∧
          drain? defaultMaxFrame k (bs ++ frame payload) = some (frame []) := by
      obtain ⟨payload, k, hmax, hdrain⟩ :=
        ih (bs.drop m).length (by rw [List.length_drop]; omega) (bs.drop m) rfl
      refine ⟨payload, k + 1, hmax, ?_⟩
      rw [drain?, hrest]
      exact hdrain
    have hfour : 4 ≤ bs.length := Nat.not_lt.1 hfew
    by_cases hlong : defaultMaxFrame < decodeLength (bs.take 4)
    · refine hstep 4 (by decide) hfour fun more => rest?_append ?_ more
      rw [rest?_eq, if_neg hfew, if_pos hlong]
    by_cases hall : bs.length < 4 + decodeLength (bs.take 4)
    · -- The frame that has begun in `bs` ends inside the chosen frame.
      obtain ⟨missing, hmissing⟩ : ∃ missing, 4 + decodeLength (bs.take 4) = bs.length + missing :=
        ⟨4 + decodeLength (bs.take 4) - bs.length, by omega⟩
      refine ⟨blanks missing, 1, by rw [length_blanks]; omega, ?_⟩
      have htake : (bs ++ frame (blanks missing)).take 4 = bs.take 4 :=
        List.take_append_of_le_length hfour
      have hlength : (bs ++ frame (blanks missing)).length = bs.length + (4 + missing) := by
        rw [List.length_append, length_frame, length_blanks]
      rw [drain?, rest?_eq, htake, hlength, if_neg (by omega), if_neg hlong, if_neg (by omega), hmissing,
        List.drop_append, List.drop_of_length_le (by omega), List.nil_append,
        Nat.add_sub_cancel_left, drop_frame_blanks]
      rfl
    · refine hstep (4 + decodeLength (bs.take 4)) (by omega) (by omega) fun more => rest?_append ?_ more
      rw [rest?_eq, if_neg hfew, if_neg hlong, if_neg hall]

end FontCatalog.Wire
