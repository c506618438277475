import FontCatalog.Proofs.Client
import FontCatalog.Proofs.Match.Folding
import FontCatalog.Proofs.Server.Transcript
import FontCatalog.Proofs.Wire.Length

/-! A whole stream of requests. However it is cut into chunks, and whatever the order of the events, the
server answers all right requests that the stream begins with, one by one, and closes the connection
at the first that is not right. -/
namespace FontCatalog.Connection
set_option autoImplicit false
open Wire

/-! ## Coming to an end -/

/-- The steps that the server may take at most after the peer has ended its side. -/
def stepsLeft (c : Connection) : Nat :=
  match c.stage with
  | .connected => 3 * c.incoming.flatten.length + 2
  | .awaiting => 3 * c.incoming.flatten.length + 1
  | .processing _ => 3 * c.incoming.flatten.length + 3
  | .responding _ => 3 * c.incoming.flatten.length + 2
  | .closed _ => 0

theorem stepsLeft_le_stepBound (c : Connection) : c.stepsLeft ≤ c.stepBound := by
  unfold stepsLeft stepBound
  split <;> omega

theorem length_of_next {max : Nat} {bs rest : Bytes} {q : Query} (h : next max bs = .request q rest) :
    rest.length + 4 ≤ bs.length := by
  obtain ⟨payload, -, rfl⟩ := right_of_next h
  rw [List.length_append, length_frame]
  omega

theorem step_stepsLeft (s : Service) {c : Connection} (hended : c.ended = true) (hopen : c.isClosed = false) :
    (c.step s).stepsLeft < c.stepsLeft := by
  obtain ⟨stage, incoming, ended, outgoing⟩ := c
  dsimp only at hended
  subst hended
  cases stage with
  | connected =>
    show 3 * incoming.flatten.length + 1 < 3 * incoming.flatten.length + 2
    omega
  | awaiting =>
    have hread := readRequest_eq s ⟨.awaiting, incoming, true, outgoing⟩
    rw [step_awaiting s rfl]
    dsimp only at hread
    cases hnext : next s.maxFrame incoming.flatten with
    | request q rest =>
      have hlength := length_of_next hnext
      rw [hnext] at hread
      obtain ⟨left, rfl, hread⟩ := hread
      rw [hread]
      show 3 * left.flatten.length + 3 < 3 * incoming.flatten.length + 1
      omega
    | wrong e =>
      rw [hnext] at hread
      obtain ⟨left, hread⟩ := hread
      rw [hread]
      exact Nat.succ_pos _
    | short reason =>
      rw [hnext] at hread
      rw [hread]
      exact Nat.succ_pos _
  | processing q =>
    show 3 * incoming.flatten.length + 2 < 3 * incoming.flatten.length + 3
    omega
  | responding r =>
    rw [step_responding s rfl]
    cases frameOf r with
    | ok frame =>
      show 3 * incoming.flatten.length + 1 < 3 * incoming.flatten.length + 2
      omega
    | error e => exact Nat.succ_pos _
  | closed reason => cases hopen

theorem advance_closed (s : Service) (n : Nat) {c : Connection} (h : c.isClosed = true) : c.advance s n = c := by
  induction n with
  | zero => rfl
  | succ n ih =>
    have hstep : c.step s = c := by
      unfold isClosed at h
      split at h
      · next reason hstage => exact step_closed s hstage
      · cases h
    rw [advance, hstep, ih]

/-- After its peer has ended its side a connection is closed in time. -/
theorem advance_ended (s : Service) (n : Nat) {c : Connection} (hended : c.ended = true)
    (hn : c.stepsLeft ≤ n) : (c.advance s n).isClosed = true := by
  induction n generalizing c with
  | zero =>
    cases hopen : c.isClosed with
    | true => exact hopen
    | false =>
      have hless := step_stepsLeft s hended hopen
      omega
  | succ n ih =>
    cases hopen : c.isClosed with
    | true => rwa [advance_closed s _ hopen]
    | false =>
      have hless := step_stepsLeft s hended hopen
      exact ih ((step_ended s c).trans hended) (by omega)

/-! ## One service -/

/-- The server is the same at every step. -/
def Event.By (s : Service) : Event → Prop
  | .advance s' | .notice s' => s' = s
  | .deliver _ | .hangUp | .collect | .elsewhere => True

theorem Event.By.reads {s : Service} {e : Event} (h : e.By s) : e.Reads s.maxFrame := by
  cases e with
  | advance s' => exact congrArg Service.maxFrame h
  | _ => trivial

theorem transcript_advance (events : List Event) (s : Service) (n : Nat) :
    (transcript (events ++ List.replicate n (.advance s))).connection =
      (transcript events).connection.advance s n ∧
    (transcript (events ++ List.replicate n (.advance s))).sent = (transcript events).sent := by
  induction n generalizing events with
  | zero =>
    rw [List.replicate_zero, List.append_nil]
    exact ⟨rfl, rfl⟩
  | succ n ih =>
    have hmore := ih (events ++ [.advance s])
    rw [transcript_concat, List.append_assoc] at hmore
    exact hmore

/-! ## Closing -/

theorem next_not_cancelled {max : Nat} {bs : Bytes} : next max bs ≠ .short .cancelled := by
  unfold next
  repeat' split
  all_goals exact nofun

theorem step_not_cancelled (s : Service) {c : Connection} (h : c.stage ≠ .closed .cancelled) :
    (c.step s).stage ≠ .closed .cancelled := by
  cases hstage : c.stage with
  | awaiting =>
    have hread := readRequest_eq s c
    rw [step_awaiting s hstage]
    split at hread
    · obtain ⟨left, -, hread⟩ := hread
      rw [hread]
      intro hclosed
      cases hclosed
    · obtain ⟨left, hread⟩ := hread
      rw [hread]
      intro hclosed
      cases hclosed
    · next reason hnext =>
      rw [hread]
      split
      · intro hclosed
        cases hclosed
        exact next_not_cancelled hnext
      · exact h
  | responding r =>
    rw [step_responding s hstage]
    intro hclosed
    split at hclosed <;> cases hclosed
  | connected | processing q =>
    rw [Connection.step, hstage]
    intro hclosed
    cases hclosed
  | closed reason => rwa [step_closed s hstage]

/-- A server that was not asked to stop cancels no connection. -/
theorem transcript_not_cancelled {s : Service} (hs : s.cancelled = false) {events : List Event}
    (h : ∀ e ∈ events, e.By s) : (transcript events).connection.stage ≠ .closed .cancelled := by
  induction events using List.reverseRecOn with
  | nil => exact nofun
  | append_singleton events e ih =>
    have hbefore := ih fun e' he' => h e' (List.mem_append_left _ he')
    have he := h e (by simp)
    rw [transcript_concat, Transcript.step_connection]
    generalize (transcript events).connection = c at hbefore
    cases e with
    | deliver bytes =>
      rw [happen, deliver]
      split <;> exact hbefore
    | hangUp => exact hbefore
    | collect =>
      rw [happen, collect]
      split <;> exact hbefore
    | advance s' => exact step_not_cancelled s' hbefore
    | notice s' =>
      have hnotice : c.notice s' = c := by
        rw [notice, if_neg]
        rw [show s' = s from he, hs]
        exact Bool.false_ne_true
      rwa [happen, hnotice]
    | elsewhere => exact hbefore

/-- Why a stream that is over is refused. -/
def Refused (max : Nat) (rest : Bytes) (reason : CloseReason) : Prop :=
  (∃ e, next max rest = .wrong e ∧ reason = .failed e) ∨ next max rest = .short reason

theorem Refused.over {max : Nat} {rest : Bytes} {reason : CloseReason} (h : Refused max rest reason) :
    Over max rest := by
  refine over_iff.2 fun q more hnext => ?_
  rcases h with ⟨e, hwrong, -⟩ | hshort
  · rw [hnext] at hwrong
    cases hwrong
  · rw [hnext] at hshort
    cases hshort

/-! ## The whole stream -/

theorem finding_catalog {s : Service} {events : List Event} (h : ∀ e ∈ events, e.By s) {f : Finding}
    (hf : f ∈ (transcript events).findings) : f.catalog = s.catalog := by
  obtain ⟨i, hi⟩ := List.mem_iff_getElem?.1 hf
  obtain ⟨s', hevent, hcatalog, -⟩ := transcript_finding hi
  have hsame : s' = s := h _ (List.mem_of_getElem? hevent)
  rw [hcatalog, hsame]

/-- When the connection is closed, all requests were answered and the stream is refused, or the response
to the last of them has no frame. -/
theorem closed_answers {s : Service} (hs : s.cancelled = false) {events : List Event}
    (h : ∀ e ∈ events, e.By s) (hclosed : (transcript events).connection.isClosed = true) :
    ∃ (done : List Query) (reason : CloseReason) (rest : Bytes),
      List.Forall₂ (fun q bytes => frameOf (.ofAnswer (s.catalog.find q)) = .ok bytes) done
        (transcript events).written ∧
      (transcript events).connection.stage = .closed reason ∧
      (Asks s.maxFrame (transcript events).sent done rest ∧ Refused s.maxFrame rest reason ∨
        ∃ q e, Asks s.maxFrame (transcript events).sent (done ++ [q]) rest ∧
          frameOf (.ofAnswer (s.catalog.find q)) = .error e ∧ reason = .failed e) := by
  obtain ⟨answered, pending, hparts, hframes, hstanding⟩ :=
    (transcript_sound events fun e he => (h e he).reads).answers
  have hcatalog : ∀ f ∈ answered ++ pending, f.catalog = s.catalog := by
    rw [← hparts]
    exact fun f hf => finding_catalog h hf
  have hdone : List.Forall₂ (fun q bytes => frameOf (.ofAnswer (s.catalog.find q)) = .ok bytes)
      (answered.map (·.query)) (transcript events).written := by
    have hboth : List.Forall₂ (fun f bytes => f.catalog = s.catalog ∧ Transcript.IsFrame f bytes) answered
        (transcript events).written :=
      (List.forall₂_and_left _ _).2 ⟨fun f hf => hcatalog f (List.mem_append_left _ hf), hframes⟩
    refine List.forall₂_map_left_iff.2 (hboth.imp fun f bytes hf => ?_)
    rw [← hf.1]
    exact hf.2
  unfold isClosed at hclosed
  split at hclosed
  · next reason hstage =>
    rw [Transcript.Standing, hstage] at hstanding
    obtain ⟨rest, hasks, hreason⟩ := hstanding
    rw [Transcript.queries, hparts, List.map_append] at hasks
    refine ⟨answered.map (·.query), reason, rest, hdone, hstage, ?_⟩
    cases hreason with
    | cancelled => exact absurd hstage (transcript_not_cancelled hs h)
    | wrong hnone hnext =>
      rw [hnone, List.map_nil, List.append_nil] at hasks
      exact .inl ⟨hasks, .inl ⟨_, hnext, rfl⟩⟩
    | short hnone hend hnext =>
      rw [hnone, List.map_nil, List.append_nil] at hasks
      exact .inl ⟨hasks, .inr hnext⟩
    | @unwritten f e hone hframe =>
      subst hone
      refine .inr ⟨f.query, e, hasks, ?_, rfl⟩
      rw [← hcatalog f (by simp)]
      exact hframe
  · cases hclosed

/-- After its peer has ended its side, and the server has taken its steps, a connection is closed, and what
it has answered is what the stream asked. -/
theorem ended_answers {s : Service} (hs : s.cancelled = false) {events : List Event} (h : ∀ e ∈ events, e.By s)
    (hended : .hangUp ∈ events) {n : Nat} (hn : (transcript events).connection.stepBound ≤ n) :
    ∃ (done : List Query) (reason : CloseReason) (rest : Bytes),
      List.Forall₂ (fun q bytes => frameOf (.ofAnswer (s.catalog.find q)) = .ok bytes) done
        (transcript (events ++ List.replicate n (.advance s))).written ∧
      (transcript (events ++ List.replicate n (.advance s))).connection.stage = .closed reason ∧
      (Asks s.maxFrame (stream events) done rest ∧ Refused s.maxFrame rest reason ∨
        ∃ q e, Asks s.maxFrame (stream events) (done ++ [q]) rest ∧
          frameOf (.ofAnswer (s.catalog.find q)) = .error e ∧ reason = .failed e) := by
  obtain ⟨hconnection, hsent⟩ := transcript_advance events s n
  have hby : ∀ e ∈ events ++ List.replicate n (.advance s), e.By s := by
    intro e he
    rcases List.mem_append.1 he with he | he
    · exact h e he
    · rw [List.eq_of_mem_replicate he]
      rfl
  have hclosed : (transcript (events ++ List.replicate n (.advance s))).connection.isClosed = true := by
    rw [hconnection]
    exact advance_ended s n (transcript_ended hended) (Nat.le_trans (stepsLeft_le_stepBound _) hn)
  rw [← transcript_sent, ← hsent]
  exact closed_answers hs hby hclosed

/-- The bytes are one frame, and the response in it is that to the query. -/
def Replies (s : Service) (q : Query) (bytes : Bytes) : Prop :=
  ∃ reply, bytes = frame reply ∧ reply.length ≤ maxLength ∧
    (Response.ofAnswer (s.catalog.find q)).encode = .ok reply ∧
    Client.responseOf reply = .ok (.ofAnswer (s.catalog.find q))

theorem replies_of_frameOf {s : Service} {q : Query} {bytes : Bytes}
    (h : frameOf (.ofAnswer (s.catalog.find q)) = .ok bytes) : Replies s q bytes := by
  obtain ⟨reply, hencode, hfits, hbytes⟩ := frameOf_eq_ok_iff.1 h
  exact ⟨reply, hbytes, hfits, hencode, Client.responseOf_encode hencode⟩

theorem Replies.unique (s : Service) : Relator.RightUnique (Replies s) := by
  rintro q _ _ ⟨reply, rfl, -, hreply, -⟩ ⟨reply', rfl, -, hreply', -⟩
  rw [hreply] at hreply'
  cases hreply'
  rfl

/-- The peer sends any stream in any chunks, takes what it likes, and ends its side; the server may have
taken any steps in between. Let `qs` be the queries of all right requests that the stream begins with.
Once the server has taken its steps it has written the frames of their responses, in order and
nothing else, and has closed the connection because of what follows. Only a response that is too
long for any frame ends this before. -/
theorem stream_answered {faces : List Face} (htext : Catalog.Textual (Catalog.build faces).faces.toList)
    {s : Service} (hcatalog : s.catalog = Catalog.build faces) (huncancelled : s.cancelled = false)
    {events : List Event} (hservice : ∀ e ∈ events, e.By s) (hended : .hangUp ∈ events) :
    ∃ qs rest, Asks s.maxFrame (stream events) qs rest ∧ Over s.maxFrame rest ∧
      ∀ n, (transcript events).connection.stepBound ≤ n →
        let t := transcript (events ++ List.replicate n (.advance s))
        ∃ done, done <+: qs ∧ List.Forall₂ (Replies s) done t.written ∧
          (done = qs ∧ (∃ reason, t.connection.stage = .closed reason ∧ Refused s.maxFrame rest reason) ∨
            ∃ q reply, (done ++ [q]) <+: qs ∧ (Response.ofAnswer (s.catalog.find q)).encode = .ok reply ∧
              maxLength < reply.length ∧
              t.connection.stage = .closed (.failed (.frameTooLarge reply.length maxLength))) := by
  obtain ⟨qs, rest, hasks, hover⟩ := exists_asks s.maxFrame (stream events)
  refine ⟨qs, rest, hasks, hover, ?_⟩
  intro n hn
  obtain ⟨done, reason, rest', hframes, hstage, hend⟩ := ended_answers huncancelled hservice hended hn
  have hreplies := hframes.imp fun _ _ => replies_of_frameOf
  rcases hend with ⟨hall, hrefused⟩ | ⟨q, e, hpart, hframe, rfl⟩
  · obtain ⟨rfl, rfl⟩ := hall.unique hrefused.over hasks hover
    exact ⟨done, List.prefix_refl _, hreplies, .inl ⟨rfl, reason, hstage, hrefused⟩⟩
  · obtain ⟨more, hqs, -⟩ := hasks.of_over hover hpart
    have hprefix : done ++ [q] <+: qs := ⟨more, hqs.symm⟩
    obtain ⟨reply, hreply⟩ := Catalog.encode_find htext q
    rw [← hcatalog] at hreply
    refine ⟨done, (List.prefix_append done [q]).trans hprefix, hreplies, .inr ⟨q, reply, hprefix, hreply, ?_⟩⟩
    rcases Nat.lt_or_ge maxLength reply.length with hlong | hfits
    · rw [frameOf_long hreply hlong] at hframe
      cases hframe
      exact ⟨hlong, hstage⟩
    · rw [frameOf_eq_ok_iff.2 ⟨reply, hreply, hfits, rfl⟩] at hframe
      cases hframe

/-! ## Streams for one face -/

/-- A face that its family finds, with any full name. -/
def longNamed (fullName : String) : Face := { Ladder.faceNamed "A" with fullName }

def servingFace (f : Face) : Service := ⟨Catalog.build [f], 0, false, 100⟩

def askFace : Query := ⟨"A", {}⟩

theorem find_longNamed (fullName : String) :
    (servingFace (longNamed fullName)).catalog.find askFace = .found (longNamed fullName) .exactTypographic := by
  show (Catalog.build [longNamed fullName]).find askFace = _
  rw [Catalog.find_singleton]
  rfl

theorem textual_longNamed (fullName : String) :
    Catalog.Textual (Catalog.build [longNamed fullName]).faces.toList :=
  Catalog.textual_build (List.forall_mem_singleton.2 rfl)

theorem right_askFace : Right 100 (Request.ofQuery askFace).encode askFace := by
  have hlength : (Request.ofQuery askFace).encode.length = 52 := by
    rw [askFace, Request.length_encode]
    rfl
  refine ⟨?_, ?_, ?_⟩
  · rw [hlength]
    decide
  · omega
  · rw [queryOf, Request.decode_encode]
    exact Request.toQuery_ofQuery askFace

theorem asks_twice (rest : Bytes) :
    Asks 100 (frame (Request.ofQuery askFace).encode ++ (frame (Request.ofQuery askFace).encode ++ rest))
      [askFace, askFace] rest := by
  refine ⟨_, .cons right_askFace (.cons right_askFace .nil), ?_⟩
  simp

theorem encode_short : ∃ reply,
    (Response.ofAnswer ((servingFace (longNamed "")).catalog.find askFace)).encode = .ok reply ∧
      reply.length ≤ maxLength := by
  obtain ⟨reply, hreply⟩ := Catalog.encode_find (textual_longNamed "") askFace
  refine ⟨reply, hreply, ?_⟩
  rw [show (Catalog.build [longNamed ""]).find askFace = _ from find_longNamed ""] at hreply
  obtain ⟨path, hpath, rfl⟩ := Response.encode_found hreply
  obtain rfl : "/f/a.ttf" = path := Option.some.inj hpath
  decide +kernel

/-- Two requests and one without its fields, cut in the header of the first and in the last: both are
answered before the connection is closed. -/
theorem stream_answered_malformed :
    let s := servingFace (longNamed "")
    let request := frame (Request.ofQuery askFace).encode
    let events := [.deliver (request.take 3), .advance s, .advance s,
      .deliver (request.drop 3 ++ (request ++ [2, 0])), .advance s, .collect, .deliver [0, 0, 0x7B, 0x7D], .hangUp]
    ∃ reply, Client.responseOf reply = .ok (.ofAnswer (.found (longNamed "") .exactTypographic)) ∧
      ∀ n, (transcript events).connection.stepBound ≤ n →
        let t := transcript (events ++ List.replicate n (.advance s))
        t.written = [frame reply, frame reply] ∧ ∃ e, t.connection.stage = .closed (.failed e) := by
  intro s request events
  have hstream : stream events = request ++ (request ++ [2, 0, 0, 0, 0x7B, 0x7D]) := by
    show request.take 3 ++ ((request.drop 3 ++ (request ++ [2, 0])) ++ [0, 0, 0x7B, 0x7D]) = _
    rw [← List.append_assoc, ← List.append_assoc (request.take 3), List.take_append_drop]
    simp
  obtain ⟨e, hwrong⟩ : ∃ e, next 100 [2, 0, 0, 0, 0x7B, 0x7D] = .wrong e := ⟨_, rfl⟩
  have hservice : ∀ e ∈ events, e.By s := by simp [events, Event.By]
  obtain ⟨qs, rest, hasks, hover, hend⟩ := stream_answered (textual_longNamed "") (s := s) rfl rfl hservice
    (by simp [events])
  rw [hstream] at hasks
  obtain ⟨rfl, rfl⟩ := hasks.unique hover (asks_twice _) (Refused.over (.inl ⟨e, hwrong, rfl⟩))
  obtain ⟨reply, hreply, hshort⟩ := encode_short
  have hread := Client.responseOf_encode hreply
  have hreplies : Replies s askFace (frame reply) := ⟨reply, rfl, hshort, hreply, hread⟩
  rw [find_longNamed] at hread
  refine ⟨reply, hread, fun n hn => ?_⟩
  obtain ⟨done, -, hwritten, hclosed⟩ := hend n hn
  rcases hclosed with ⟨rfl, reason, hstage, hrefused⟩ | ⟨q, long, hmore, hlong, htoo, -⟩
  · refine ⟨(Replies.unique s).forall₂ hwritten (.cons hreplies (.cons hreplies .nil)), ?_⟩
    rcases hrefused with ⟨e, -, rfl⟩ | hcut
    · exact ⟨e, hstage⟩
    · rw [show next s.maxFrame _ = _ from hwrong] at hcut
      cases hcut
  · -- The only response that there is fits its frame.
    have hq : q ∈ [askFace, askFace] := hmore.subset (by simp)
    obtain rfl : q = askFace := by simpa using hq
    rw [hreply] at hlong
    cases hlong
    omega

theorem frameOf_longNamed {fullName : String} (h : maxLength < fullName.toList.length) :
    ∃ length, maxLength < length ∧
      frameOf (.ofAnswer ((servingFace (longNamed fullName)).catalog.find askFace)) =
        .error (.frameTooLarge length maxLength) := by
  obtain ⟨reply, hreply⟩ := Catalog.encode_find (textual_longNamed fullName) askFace
  have hname : fullName.toList.length ≤ reply.length := by
    rw [show (Catalog.build [longNamed fullName]).find askFace = _ from find_longNamed fullName] at hreply
    exact Response.length_le_encode hreply
  have hlong := Nat.lt_of_lt_of_le h hname
  exact ⟨reply.length, hlong, frameOf_long hreply hlong⟩

/-- A right request has no response if the full name of the face is too long for one. -/
theorem unanswered_of_long {fullName : String} (h : maxLength < fullName.toList.length) {events : List Event}
    (hservice : ∀ e ∈ events, e.By (servingFace (longNamed fullName))) (hended : .hangUp ∈ events)
    (hasks : Asks 100 (stream events) [askFace] []) {n : Nat} (hn : (transcript events).connection.stepBound ≤ n) :
    (transcript (events ++ List.replicate n (.advance (servingFace (longNamed fullName))))).written = [] ∧
      ∃ length, maxLength < length ∧
        (transcript (events ++ List.replicate n (.advance (servingFace (longNamed fullName))))).connection.stage =
          .closed (.failed (.frameTooLarge length maxLength)) := by
  obtain ⟨length, hlong, hframe⟩ := frameOf_longNamed h
  have hover : Over 100 [] := Refused.over (.inr rfl)
  obtain ⟨done, reason, rest, hframes, hstage, hend⟩ := ended_answers rfl hservice hended hn
  rcases hend with ⟨hall, hrefused⟩ | ⟨q, e, hpart, hnone, rfl⟩
  · -- All requests would have frames, and so the one that has none.
    obtain ⟨rfl, -⟩ := Asks.unique hall hrefused.over hasks hover
    obtain ⟨bytes, _, hbytes, -⟩ := List.forall₂_cons_left_iff.1 hframes
    rw [hframe] at hbytes
    cases hbytes
  · obtain ⟨more, hqs, -⟩ := Asks.of_over hasks hover hpart
    obtain ⟨rfl, rfl⟩ : done = [] ∧ q = askFace := by
      cases done with
      | nil => exact ⟨rfl, (List.cons.inj hqs).1.symm⟩
      | cons p done => simp at hqs
    rw [hframe] at hnone
    cases hnone
    exact ⟨List.forall₂_nil_left_iff.1 hframes, length, hlong, hstage⟩

/-- A face with a full name of 2^32 letters: the request for it is right, yet the connection is closed without
a response. -/
theorem stream_unanswered_long :
    let s := servingFace (longNamed (Json.longText (2 ^ 32)))
    let events := [.deliver (frame (Request.ofQuery askFace).encode), .hangUp]
    Asks s.maxFrame (stream events) [askFace] [] ∧ Over s.maxFrame [] ∧
      ∀ n, (transcript events).connection.stepBound ≤ n →
        let t := transcript (events ++ List.replicate n (.advance s))
        t.written = [] ∧ ∃ length, maxLength < length ∧
          t.connection.stage = .closed (.failed (.frameTooLarge length maxLength)) := by
  have hlong : maxLength < (Json.longText (2 ^ 32)).toList.length := by
    rw [Json.length_longText]
    decide
  generalize Json.longText (2 ^ 32) = fullName at hlong ⊢
  intro s events
  have hasks : Asks 100 (stream events) [askFace] [] := ⟨_, .cons right_askFace .nil, by simp [events, stream]⟩
  exact ⟨hasks, Refused.over (.inr rfl), fun n hn =>
    unanswered_of_long hlong (by simp [events, Event.By]) (by simp [events]) hasks hn⟩

end FontCatalog.Connection
