import FontCatalog.Proofs.Wire.Frame

/-! The two readers of frames side by side: the one that waits for all bytes it needs and the one that
takes what each chunk brings. From any bytes, cut into any chunks, both read the same payloads and stop
at the same place for the same reason; only where nothing is left one has failed and the other has come
to the end. What was written is read back whole. -/
namespace FontCatalog.Wire
set_option autoImplicit false

/-! ## Where reading stops -/

/-- No frame can be read from these bytes. The first error is that of the reader that waits, the second
that of the reader of chunks. -/
inductive Stops (max : Nat) : Bytes → Error → Option Error → Prop
  | ended : Stops max [] (.cut .buffer) none
  | inHeader {bs : Bytes} (hsome : bs ≠ []) (hshort : bs.length < 4) :
      Stops max bs (.cut .buffer) (some (.cut .header))
  /-- The length alone decides, whatever follows. -/
  | tooLarge {header : Bytes} (hfour : header.length = 4) (hlarge : max < decodeLength header)
      (rest : Bytes) :
      Stops max (header ++ rest) (.frameTooLarge (decodeLength header) max)
        (some (.frameTooLarge (decodeLength header) max))
  | inPayload {header body : Bytes} (hfour : header.length = 4) (hmax : decodeLength header ≤ max)
      (hshort : body.length < decodeLength header) :
      Stops max (header ++ body) (.cut .buffer) (some (.cut .payload))

abbrev Fits (max : Nat) (payload : Bytes) : Prop := payload.length ≤ min max maxLength

theorem frame_or_stops (max : Nat) (bs : Bytes) :
    (∃ payload rest, Fits max payload ∧ bs = frame payload ++ rest) ∨ ∃ e e', Stops max bs e e' := by
  by_cases hempty : bs = []
  · subst hempty
    exact .inr ⟨_, _, .ended⟩
  by_cases hfour : bs.length < 4
  · exact .inr ⟨_, _, .inHeader hempty hfour⟩
  obtain ⟨header, body, hheader, rfl⟩ : ∃ header body : Bytes, header.length = 4 ∧ bs = header ++ body := by
    refine ⟨bs.take 4, bs.drop 4, ?_, (List.take_append_drop 4 bs).symm⟩
    rw [List.length_take]
    omega
  by_cases hlarge : max < decodeLength header
  · exact .inr ⟨_, _, .tooLarge hheader hlarge body⟩
  by_cases hshort : body.length < decodeLength header
  · exact .inr ⟨_, _, .inPayload hheader (Nat.not_lt.1 hlarge) hshort⟩
  have hlength : (body.take (decodeLength header)).length = decodeLength header := by
    rw [List.length_take]
    omega
  have hword := decodeLength_le hheader
  refine .inl ⟨body.take (decodeLength header), body.drop (decodeLength header), ?_, ?_⟩
  · rw [Fits, hlength]
    omega
  · rw [frame, hlength, encodeLength_decodeLength hheader, List.append_assoc, List.take_append_drop]

section
variable {max : Nat} {bs : Bytes} {e : Error} {e' : Option Error}

theorem readFrame_stops (h : Stops max bs e e') : readFrame max bs = .error e := by
  rw [readFrame_eq]
  cases h with
  | ended => rfl
  | inHeader hsome hshort => rw [if_pos hshort]
  | @tooLarge header hfour hlarge rest =>
    have hlong : ¬(header ++ rest).length < 4 := by
      rw [List.length_append]
      omega
    rw [if_neg hlong, List.take_left' hfour, if_pos hlarge]
  | @inPayload header body hfour hmax hshort =>
    have hlength : (header ++ body).length = 4 + body.length := by rw [List.length_append, hfour]
    rw [hlength, List.take_left' hfour, if_neg (by omega), if_neg (by omega), if_pos (by omega)]

theorem receiveFrame_stops (h : Stops max bs e e') {chunks : List Bytes} (hchunks : chunks.flatten = bs) :
    receiveFrame max chunks = match e' with
      | none => .ok none
      | some e => .error e := by
  obtain ⟨left, -, hreceive⟩ := receiveFrame_eq max hchunks
  rw [hreceive]
  cases h with
  | ended => rfl
  | inHeader hsome hshort => rw [if_neg hsome, if_pos hshort]
  | @tooLarge header hfour hlarge rest =>
    have hlength : (header ++ rest).length = 4 + rest.length := by rw [List.length_append, hfour]
    have hsome : header ++ rest ≠ [] := List.ne_nil_of_length_pos (by omega)
    rw [hlength, List.take_left' hfour, if_neg hsome, if_neg (by omega), if_pos hlarge]
  | @inPayload header body hfour hmax hshort =>
    have hlength : (header ++ body).length = 4 + body.length := by rw [List.length_append, hfour]
    have hsome : header ++ body ≠ [] := List.ne_nil_of_length_pos (by omega)
    rw [hlength, List.take_left' hfour, if_neg hsome, if_neg (by omega), if_neg (by omega),
      if_pos (by omega)]

end

/-! ## Waiting for chunks -/

/-- `n` bytes, from however many chunks they come. -/
def await (n : Nat) (chunks : List Bytes) : Except Error (Bytes × List Bytes) :=
  let (got, chunks) := fill n n [] chunks
  if got.length < n then .error (.cut .buffer) else .ok (got, chunks)

/-- The reader that waits, when its bytes come in chunks. -/
def awaitFrame (max : Nat) (chunks : List Bytes) : Except Error (Bytes × List Bytes) :=
  match await 4 chunks with
  | .error e => .error e
  | .ok (header, chunks) =>
    if max < decodeLength header then .error (.frameTooLarge (decodeLength header) max)
    else await (decodeLength header) chunks

/-- Its payloads up to the first failure. -/
def awaitFrames (max : Nat) : Nat → List Bytes → List Bytes × Error
  | 0, _ => ([], .cut .buffer)
  | fuel + 1, chunks =>
    match awaitFrame max chunks with
    | .error e => ([], e)
    | .ok (payload, chunks) =>
      let (payloads, e) := awaitFrames max fuel chunks
      (payload :: payloads, e)

def allAwaited (max : Nat) (chunks : List Bytes) : List Bytes × Error :=
  awaitFrames max (chunks.flatten.length + 1) chunks

theorem await_eq (n : Nat) (chunks : List Bytes) :
    if chunks.flatten.length < n then await n chunks = .error (.cut .buffer)
    else ∃ left, left.flatten = chunks.flatten.drop n ∧
      await n chunks = .ok (chunks.flatten.take n, left) := by
  obtain ⟨hgot, hleft⟩ := fill_flatten (Nat.le_refl n) [] chunks
  rw [List.nil_append] at hgot
  have hlength : (fill n n [] chunks).1.length = min n chunks.flatten.length := by
    rw [hgot, List.length_take]
  unfold await
  by_cases hshort : chunks.flatten.length < n
  · rw [if_pos hshort]
    exact if_pos (by omega)
  · rw [if_neg hshort]
    refine ⟨_, hleft, ?_⟩
    rw [← hgot]
    exact if_neg (by omega)

/-- A reader that waits gets the same from chunks as from all bytes at once. -/
theorem awaitFrame_eq (max : Nat) (chunks : List Bytes) :
    match readFrame max chunks.flatten with
    | .error e => awaitFrame max chunks = .error e
    | .ok (payload, rest) => ∃ left, left.flatten = rest ∧ awaitFrame max chunks = .ok (payload, left) := by
  rcases frame_or_stops max chunks.flatten with ⟨payload, rest, hfits, hbytes⟩ | ⟨e, e', hstops⟩
  · have hwhole : readFrame max (frame payload ++ rest) = .ok (payload, rest) :=
      readFrame_frame (by omega) (by omega) rest
    rw [hbytes, hwhole]
    have hheader := await_eq 4 chunks
    rw [hbytes, List.length_append, length_frame, if_neg (by omega), take_frame, drop_frame] at hheader
    obtain ⟨behind, hbehind, hfour⟩ := hheader
    have hbody := await_eq payload.length behind
    rw [hbehind, List.length_append, if_neg (by omega), List.take_left, List.drop_left] at hbody
    obtain ⟨left, hleft, hpayload⟩ := hbody
    refine ⟨left, hleft, ?_⟩
    simp only [awaitFrame, hfour, decodeLength_encodeLength (n := payload.length) (by omega), hpayload]
    exact if_neg (by omega)
  · rw [readFrame_stops hstops]
    have hheader := await_eq 4 chunks
    generalize hbytes : chunks.flatten = bs at hstops hheader
    cases hstops with
    | ended =>
      rw [if_pos (by simp)] at hheader
      simp only [awaitFrame, hheader]
    | inHeader hsome hshort =>
      rw [if_pos hshort] at hheader
      simp only [awaitFrame, hheader]
    | @tooLarge header hfour hlarge rest =>
      rw [List.length_append, if_neg (by omega), List.take_left' hfour, List.drop_left' hfour] at hheader
      obtain ⟨behind, -, hheader⟩ := hheader
      simp only [awaitFrame, hheader]
      exact if_pos hlarge
    | @inPayload header body hfour hmax hshort =>
      rw [List.length_append, if_neg (by omega), List.take_left' hfour, List.drop_left' hfour] at hheader
      obtain ⟨behind, hbehind, hheader⟩ := hheader
      have hbody := await_eq (decodeLength header) behind
      rw [hbehind, if_pos hshort] at hbody
      simp only [awaitFrame, hheader, hbody]
      exact if_neg (by omega)

theorem allAwaited_eq (max : Nat) (chunks : List Bytes) :
    allAwaited max chunks = allFrames max chunks.flatten := by
  unfold allAwaited allFrames
  generalize chunks.flatten.length + 1 = fuel
  induction fuel generalizing chunks with
  | zero => rfl
  | succ fuel ih =>
    have hframe := awaitFrame_eq max chunks
    rw [awaitFrames, readFrames]
    cases hread : readFrame max chunks.flatten with
    | error e =>
      rw [hread] at hframe
      rw [hframe]
    | ok r =>
      rw [hread] at hframe
      obtain ⟨left, hleft, hframe⟩ := hframe
      rw [hframe]
      dsimp only
      rw [ih, hleft]

/-! ## Many frames -/

/-- Every stream of bytes is a row of whole frames and a remainder from which no frame can be read. -/
theorem exists_frames (max : Nat) (bs : Bytes) :
    ∃ (payloads : List Bytes) (rest : Bytes) (e : Error) (e' : Option Error),
      (∀ p ∈ payloads, Fits max p) ∧ bs = (payloads.map frame).flatten ++ rest ∧
        Stops max rest e e' := by
  induction hlength : bs.length using Nat.strongRecOn generalizing bs with
  | ind n ih =>
    subst hlength
    rcases frame_or_stops max bs with ⟨payload, behind, hfits, rfl⟩ | ⟨e, e', hstops⟩
    · have hless : behind.length < (frame payload ++ behind).length := by
        rw [List.length_append, length_frame]
        omega
      obtain ⟨payloads, rest, e, e', hall, rfl, hstops⟩ := ih behind.length hless behind rfl
      refine ⟨payload :: payloads, rest, e, e', List.forall_mem_cons.2 ⟨hfits, hall⟩, ?_, hstops⟩
      rw [List.map_cons, List.flatten_cons, List.append_assoc]
    · exact ⟨[], bs, e, e', List.forall_mem_nil _, rfl, hstops⟩

theorem mapM_writeFrame {max : Nat} {payloads : List Bytes} (h : ∀ p ∈ payloads, Fits max p) :
    payloads.mapM writeFrame = .ok (payloads.map frame) := by
  induction payloads with
  | nil => rfl
  | cons payload payloads ih =>
    obtain ⟨hpayload, hrest⟩ := List.forall_mem_cons.1 h
    rw [List.mapM_cons, writeFrame_eq (Nat.le_trans hpayload (Nat.min_le_right ..)), ih hrest]
    rfl

section
variable {max : Nat} {payloads : List Bytes} {rest : Bytes} {e : Error} {e' : Option Error}

theorem readFrames_eq (h : ∀ p ∈ payloads, Fits max p) (hstops : Stops max rest e e') {fuel : Nat}
    (hfuel : ((payloads.map frame).flatten ++ rest).length < fuel) :
    readFrames max fuel ((payloads.map frame).flatten ++ rest) = (payloads, e) := by
  induction payloads generalizing fuel with
  | nil =>
    obtain ⟨fuel, rfl⟩ := Nat.exists_eq_add_one_of_ne_zero (Nat.ne_zero_of_lt hfuel)
    rw [List.map_nil, List.flatten_nil, List.nil_append, readFrames, readFrame_stops hstops]
  | cons payload payloads ih =>
    obtain ⟨hpayload, hrest⟩ := List.forall_mem_cons.1 h
    obtain ⟨fuel, rfl⟩ := Nat.exists_eq_add_one_of_ne_zero (Nat.ne_zero_of_lt hfuel)
    rw [List.map_cons, List.flatten_cons, List.append_assoc] at hfuel ⊢
    rw [List.length_append, length_frame] at hfuel
    rw [readFrames, readFrame_frame (by omega) (by omega)]
    dsimp only
    rw [ih hrest (by omega)]

theorem receiveFrames_eq (h : ∀ p ∈ payloads, Fits max p) (hstops : Stops max rest e e') {fuel : Nat}
    {chunks : List Bytes} (hchunks : chunks.flatten = (payloads.map frame).flatten ++ rest)
    (hfuel : chunks.flatten.length < fuel) :
    receiveFrames max fuel chunks = (payloads, e') := by
  induction payloads generalizing fuel chunks with
  | nil =>
    obtain ⟨fuel, rfl⟩ := Nat.exists_eq_add_one_of_ne_zero (Nat.ne_zero_of_lt hfuel)
    rw [List.map_nil, List.flatten_nil, List.nil_append] at hchunks
    rw [receiveFrames, receiveFrame_stops hstops hchunks]
    cases e' <;> rfl
  | cons payload payloads ih =>
    obtain ⟨hpayload, hrest⟩ := List.forall_mem_cons.1 h
    obtain ⟨fuel, rfl⟩ := Nat.exists_eq_add_one_of_ne_zero (Nat.ne_zero_of_lt hfuel)
    rw [List.map_cons, List.flatten_cons, List.append_assoc] at hchunks
    have hfirst : ∃ left, receiveFrame max chunks = .ok (some (payload, left)) ∧
        left.flatten = (payloads.map frame).flatten ++ rest :=
      receiveFrame_frame (by omega) (by omega) hchunks
    obtain ⟨left, hreceive, hleft⟩ := hfirst
    have hless : left.flatten.length < fuel := by
      rw [hchunks, List.length_append, length_frame] at hfuel
      rw [hleft]
      omega
    rw [receiveFrames, hreceive]
    dsimp only
    rw [ih hrest hleft hless]

theorem all_eq (h : ∀ p ∈ payloads, Fits max p) (hstops : Stops max rest e e') {chunks : List Bytes}
    (hchunks : chunks.flatten = (payloads.map frame).flatten ++ rest) :
    allFrames max chunks.flatten = (payloads, e) ∧ allAwaited max chunks = (payloads, e) ∧
      allReceived max chunks = (payloads, e') := by
  have hread : allFrames max chunks.flatten = (payloads, e) := by
    rw [allFrames, hchunks]
    exact readFrames_eq h hstops (Nat.lt_succ_self _)
  refine ⟨hread, ?_, receiveFrames_eq h hstops hchunks (Nat.lt_succ_self _)⟩
  rw [allAwaited_eq, hread]

end

/-- Both readers give back what was written, and they agree on every stream in every cut. -/
theorem readers_agree (max : Nat) :
    (∀ payloads : List Bytes, (∀ p ∈ payloads, p.length ≤ min max maxLength) →
      ∃ frames, payloads.mapM writeFrame = .ok frames ∧
        ∀ chunks : List Bytes, chunks.flatten = frames.flatten →
          allFrames max chunks.flatten = (payloads, .cut .buffer) ∧
          allAwaited max chunks = (payloads, .cut .buffer) ∧
          allReceived max chunks = (payloads, none)) ∧
    ∀ chunks : List Bytes, ∃ (payloads frames : List Bytes) (rest : Bytes) (e : Error) (e' : Option Error),
      payloads.mapM writeFrame = .ok frames ∧ (∀ p ∈ payloads, p.length ≤ max) ∧
      chunks.flatten = frames.flatten ++ rest ∧ Stops max rest e e' ∧
      allFrames max chunks.flatten = (payloads, e) ∧
      allAwaited max chunks = (payloads, e) ∧
      allReceived max chunks = (payloads, e') := by
  constructor
  · intro payloads hfits
    refine ⟨_, mapM_writeFrame hfits, ?_⟩
    intro chunks hchunks
    apply all_eq hfits .ended
    rw [hchunks, List.append_nil]
  · intro chunks
    obtain ⟨payloads, rest, e, e', hfits, hbytes, hstops⟩ := exists_frames max chunks.flatten
    have hshort : ∀ p ∈ payloads, p.length ≤ max := by
      intro p hp
      exact Nat.le_trans (hfits p hp) (Nat.min_le_left ..)
    exact ⟨payloads, _, rest, e, e', mapM_writeFrame hfits, hshort, hbytes, hstops, all_eq hfits hstops hbytes⟩

/-- Three frames, cut within a length and within a payload. -/
theorem readers_agree_cut :
    let payloads : List Bytes := [[1, 2, 3], [], [4]]
    let chunks : List Bytes := [[3, 0], [0, 0, 1], [], [2, 3, 0, 0, 0], [0, 1, 0, 0, 0, 4]]
    (∀ p ∈ payloads, p.length ≤ min 3 maxLength) ∧
      payloads.mapM writeFrame = .ok [[3, 0, 0, 0, 1, 2, 3], [0, 0, 0, 0], [1, 0, 0, 0, 4]] ∧
      allFrames 3 chunks.flatten = (payloads, .cut .buffer) ∧ allAwaited 3 chunks = (payloads, .cut .buffer) ∧
      allReceived 3 chunks = (payloads, none) := by
  intro payloads chunks
  have hshort : ∀ p ∈ payloads, p.length ≤ min 3 maxLength := by
    simp [payloads, maxLength]
  obtain ⟨frames, hframes, hread⟩ := (readers_agree 3).1 payloads hshort
  have hwritten : payloads.mapM writeFrame = .ok [[3, 0, 0, 0, 1, 2, 3], [0, 0, 0, 0], [1, 0, 0, 0, 4]] := rfl
  obtain rfl := Except.ok.inj (hframes.symm.trans hwritten)
  exact ⟨hshort, hwritten, hread chunks rfl⟩

end FontCatalog.Wire
