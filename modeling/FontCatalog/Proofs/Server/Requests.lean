import FontCatalog.Proofs.Wire.Frame
import FontCatalog.Server.Connection
import Mathlib.Data.List.Forall2

/-! The requests in a stream. What a connection reads next depends only on the bytes that have come: a
request that is right, one that is wrong whatever follows, or too little, which more bytes may make
up for. A stream begins with its right requests, and the first that is not right ends them. -/
namespace FontCatalog
set_option autoImplicit false

namespace Connection
open Wire

/-! ## What comes next -/

inductive Next where
  | request (q : Query) (rest : Bytes)
  /-- not a right request, whatever follows -/
  | wrong (e : Wire.Error)
  /-- not enough; if nothing follows, the reason to close -/
  | short (reason : CloseReason)

/-- What a stream brings next. -/
def next (max : Nat) (bs : Bytes) : Next :=
  if bs = [] then .short .peerClosed
  else if bs.length < 4 then .short (.failed (.cut .header))
  else if max < decodeLength (bs.take 4) then .wrong (.frameTooLarge (decodeLength (bs.take 4)) max)
  else if bs.length < 4 + decodeLength (bs.take 4) then .short (.failed (.cut .payload))
  else match queryOf ((bs.drop 4).take (decodeLength (bs.take 4))) with
    | .error e => .wrong e
    | .ok q => .request q (bs.drop (4 + decodeLength (bs.take 4)))

/-- The connection does what the next part of its stream says, whatever the chunks. -/
theorem readRequest_eq (s : Service) (c : Connection) :
    match next s.maxFrame c.incoming.flatten with
    | .request q rest =>
      ∃ left, left.flatten = rest ∧ c.readRequest s = { c with stage := .processing q, incoming := left }
    | .wrong e => ∃ left, c.readRequest s = { c with stage := .closed (.failed e), incoming := left }
    | .short reason => c.readRequest s = if c.ended then c.close reason else c := by
  generalize hbs : c.incoming.flatten = bs
  obtain ⟨left, hleft, hreceive⟩ := receiveFrame_eq s.maxFrame hbs
  unfold next readRequest
  rw [hreceive]
  by_cases hempty : bs = []
  · simp only [hempty, if_true]
  by_cases hfour : bs.length < 4
  · simp only [hempty, hfour, if_true, if_false]
  by_cases hbig : s.maxFrame < decodeLength (bs.take 4)
  · simp only [hempty, hfour, hbig, if_true, if_false]
    exact ⟨c.incoming, rfl⟩
  by_cases hcut : bs.length < 4 + decodeLength (bs.take 4)
  · simp only [hempty, hfour, hbig, hcut, if_true, if_false]
  · simp only [hempty, hfour, hbig, hcut, if_false]
    cases queryOf ((bs.drop 4).take (decodeLength (bs.take 4))) with
    | error e => exact ⟨left, rfl⟩
    | ok q => exact ⟨left, hleft, rfl⟩

/-! ## Right requests -/

/-- A payload that the server answers, and the query that it asks. -/
structure Right (max : Nat) (payload : Bytes) (q : Query) : Prop where
  fits : payload.length ≤ maxLength
  short : payload.length ≤ max
  query : queryOf payload = .ok q

theorem next_frame {max : Nat} {payload : Bytes} {q : Query} (h : Right max payload q) (rest : Bytes) :
    next max (frame payload ++ rest) = .request q rest := by
  have hshort := h.short
  have hlength : (frame payload ++ rest).length = 4 + payload.length + rest.length := by
    rw [List.length_append, length_frame]
  have hsome : frame payload ++ rest ≠ [] := by
    intro hnone
    rw [hnone, List.length_nil] at hlength
    omega
  rw [next, take_frame, decodeLength_encodeLength h.fits, hlength, drop_frame, List.take_left,
    if_neg hsome, if_neg (by omega), if_neg (by omega), if_neg (by omega), h.query, ← List.drop_drop,
    drop_frame, List.drop_left]

theorem right_of_next {max : Nat} {bs rest : Bytes} {q : Query} (h : next max bs = .request q rest) :
    ∃ payload, Right max payload q ∧ bs = frame payload ++ rest := by
  generalize hn : decodeLength (bs.take 4) = n at h
  unfold next at h
  rw [hn] at h
  split at h
  · cases h
  split at h
  · cases h
  · next hfour =>
    have hheader : (bs.take 4).length = 4 := by
      rw [List.length_take]
      omega
    split at h
    · cases h
    · next hbig =>
      split at h
      · cases h
      · next hcut =>
        have hpayload : ((bs.drop 4).take n).length = n := by
          rw [List.length_take, List.length_drop]
          omega
        split at h
        · cases h
        · next hquery =>
          cases h
          refine ⟨(bs.drop 4).take n, ⟨?_, ?_, hquery⟩, ?_⟩
          · rw [hpayload, ← hn]
            exact decodeLength_le hheader
          · omega
          · rw [frame, hpayload, ← hn, encodeLength_decodeLength hheader, hn, List.append_assoc,
              ← List.drop_drop, List.take_append_drop, List.take_append_drop]

theorem next_append {max : Nat} {bs : Bytes} {e : Wire.Error} (h : next max bs = .wrong e) (more : Bytes) :
    next max (bs ++ more) = .wrong e := by
  unfold next at h ⊢
  split at h
  · cases h
  · next hempty =>
    split at h
    · cases h
    · next hfour =>
      have htake : (bs ++ more).take 4 = bs.take 4 := List.take_append_of_le_length (Nat.not_lt.1 hfour)
      have hdrop : (bs ++ more).drop 4 = bs.drop 4 ++ more :=
        List.drop_append_of_le_length (Nat.not_lt.1 hfour)
      have hlength : (bs ++ more).length = bs.length + more.length := List.length_append
      rw [htake, hdrop, hlength, if_neg (by simp [hempty]), if_neg (by omega)]
      split at h
      · next hbig => rwa [if_pos hbig]
      · next hbig =>
        split at h
        · cases h
        · next hcut =>
          have hpayload : (bs.drop 4 ++ more).take (decodeLength (bs.take 4)) =
              (bs.drop 4).take (decodeLength (bs.take 4)) := by
            apply List.take_append_of_le_length
            rw [List.length_drop]
            omega
          rw [if_neg hbig, if_neg (by omega), hpayload]
          split at h
          · exact h
          · cases h

/-- A stream begins with right requests, which ask these queries. -/
def Asks (max : Nat) (bs : Bytes) (qs : List Query) (rest : Bytes) : Prop :=
  ∃ payloads, List.Forall₂ (Right max) payloads qs ∧ bs = payloads.flatMap frame ++ rest

theorem asks_nil (max : Nat) (bs : Bytes) : Asks max bs [] bs := ⟨[], .nil, rfl⟩

theorem Asks.append {max : Nat} {bs rest : Bytes} {qs : List Query} (h : Asks max bs qs rest) (more : Bytes) :
    Asks max (bs ++ more) qs (rest ++ more) := by
  obtain ⟨payloads, hright, rfl⟩ := h
  exact ⟨payloads, hright, List.append_assoc ..⟩

theorem Asks.concat {max : Nat} {bs rest rest' : Bytes} {qs : List Query} {q : Query}
    (h : Asks max bs qs rest) (hnext : next max rest = .request q rest') :
    Asks max bs (qs ++ [q]) rest' := by
  obtain ⟨payloads, hright, rfl⟩ := h
  obtain ⟨payload, hpayload, rfl⟩ := right_of_next hnext
  refine ⟨payloads ++ [payload], List.rel_append hright (.cons hpayload .nil), ?_⟩
  rw [List.flatMap_append, List.flatMap_singleton, List.append_assoc]

theorem asks_cons_iff {max : Nat} {bs rest : Bytes} {q : Query} {qs : List Query} :
    Asks max bs (q :: qs) rest ↔ ∃ mid, next max bs = .request q mid ∧ Asks max mid qs rest := by
  constructor
  · rintro ⟨payloads, hright, rfl⟩
    cases hright with
    | @cons payload _ payloads _ hpayload hrest =>
      refine ⟨payloads.flatMap frame ++ rest, ?_, payloads, hrest, rfl⟩
      rw [List.flatMap_cons, List.append_assoc]
      exact next_frame hpayload _
  · rintro ⟨mid, hnext, payloads, hright, rfl⟩
    obtain ⟨payload, hpayload, rfl⟩ := right_of_next hnext
    refine ⟨payload :: payloads, .cons hpayload hright, ?_⟩
    rw [List.flatMap_cons, List.append_assoc]

theorem Asks.of_append {max : Nat} {bs rest : Bytes} {ps qs : List Query} (h : Asks max bs (ps ++ qs) rest) :
    ∃ mid, Asks max bs ps mid := by
  induction ps generalizing bs with
  | nil => exact ⟨bs, asks_nil max bs⟩
  | cons p ps ih =>
    obtain ⟨next, hnext, h⟩ := asks_cons_iff.1 h
    obtain ⟨mid, hmid⟩ := ih h
    exact ⟨mid, asks_cons_iff.2 ⟨next, hnext, hmid⟩⟩

/-! ## All right requests -/

/-- No right request comes next. -/
def Over (max : Nat) (rest : Bytes) : Prop :=
  ∀ (payload : Bytes) (q : Query) (more : Bytes), Right max payload q → rest ≠ frame payload ++ more

theorem over_iff {max : Nat} {rest : Bytes} :
    Over max rest ↔ ∀ q more, next max rest ≠ .request q more := by
  constructor
  · intro h q more hnext
    obtain ⟨payload, hpayload, hrest⟩ := right_of_next hnext
    exact h payload q more hpayload hrest
  · rintro h payload q more hpayload rfl
    exact h q more (next_frame hpayload more)

/-- Every stream is its right requests and a rest that does not begin with one. -/
theorem exists_asks (max : Nat) (bs : Bytes) : ∃ qs rest, Asks max bs qs rest ∧ Over max rest := by
  induction hlength : bs.length using Nat.strongRecOn generalizing bs with
  | ind length ih =>
    cases hnext : next max bs with
    | request q mid =>
      have hless : mid.length < length := by
        obtain ⟨payload, -, hbs⟩ := right_of_next hnext
        have hparts := congrArg List.length hbs
        rw [List.length_append, length_frame] at hparts
        omega
      obtain ⟨qs, rest, hasks, hover⟩ := ih mid.length hless mid rfl
      exact ⟨q :: qs, rest, asks_cons_iff.2 ⟨mid, hnext, hasks⟩, hover⟩
    | wrong e => exact ⟨[], bs, asks_nil max bs, over_iff.2 (by simp [hnext])⟩
    | short reason => exact ⟨[], bs, asks_nil max bs, over_iff.2 (by simp [hnext])⟩

/-- Right requests that a stream begins with are the first of all that it has. -/
theorem Asks.of_over {max : Nat} {bs rest part : Bytes} {qs ps : List Query} (h : Asks max bs qs rest)
    (hover : Over max rest) (hpart : Asks max bs ps part) : ∃ more, qs = ps ++ more ∧ Asks max part more rest := by
  induction ps generalizing bs qs with
  | nil =>
    obtain ⟨payloads, hnone, rfl⟩ := hpart
    cases hnone
    exact ⟨qs, rfl, h⟩
  | cons p ps ih =>
    obtain ⟨mid, hnext, hpart⟩ := asks_cons_iff.1 hpart
    cases qs with
    | nil =>
      obtain ⟨payloads, hnone, rfl⟩ := h
      cases hnone
      exact absurd hnext (over_iff.1 hover p mid)
    | cons q qs =>
      obtain ⟨mid', hnext', h⟩ := asks_cons_iff.1 h
      rw [hnext] at hnext'
      cases hnext'
      obtain ⟨more, rfl, hmore⟩ := ih h hpart
      exact ⟨more, rfl, hmore⟩

/-- Right requests that end where none comes next are all that a stream has. -/
theorem Asks.unique {max : Nat} {bs rest rest' : Bytes} {qs qs' : List Query} (h : Asks max bs qs rest)
    (hover : Over max rest) (h' : Asks max bs qs' rest') (hover' : Over max rest') : qs = qs' ∧ rest = rest' := by
  obtain ⟨more, rfl, hmore⟩ := h.of_over hover h'
  cases more with
  | nil =>
    obtain ⟨payloads, hnone, hrest⟩ := hmore
    cases hnone
    exact ⟨List.append_nil _, hrest.symm⟩
  | cons q more =>
    obtain ⟨mid, hnext, -⟩ := asks_cons_iff.1 hmore
    exact absurd hnext (over_iff.1 hover' q mid)

end Connection

end FontCatalog
