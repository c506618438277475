import FontCatalog.Proofs.Wire.Frame
import FontCatalog.Proofs.Wire.Response
import FontCatalog.Server.Connection

/-! A connection that waits takes one whole request, answers it from the catalog and waits again. -/
namespace FontCatalog.Connection
set_option autoImplicit false
open Wire

/-- There is nothing to read and nothing to collect, and more may come. -/
structure Quiet (c : Connection) : Prop where
  incoming : c.incoming.flatten = []
  outgoing : c.outgoing = []
  ended : c.ended = false

/-- A quiet connection that is about to wait or waits for a request. -/
structure Idle (c : Connection) : Prop extends Quiet c where
  stage : c.stage = .connected ∨ c.stage = .awaiting

/-! ## Steps -/

theorem step_awaiting (s : Service) {c : Connection} (h : c.stage = .awaiting) :
    c.step s = c.readRequest s := by
  rw [step, h]

theorem step_responding (s : Service) {c : Connection} {r : Response} (h : c.stage = .responding r) :
    c.step s = match frameOf r with
      | .ok bytes => { c with stage := .awaiting, outgoing := c.outgoing ++ [bytes] }
      | .error e => c.close (.failed e) := by
  obtain ⟨stage, incoming, ended, outgoing⟩ := c
  subst h
  rfl

theorem step_closed (s : Service) {c : Connection} {reason : CloseReason} (h : c.stage = .closed reason) :
    c.step s = c := by
  rw [step, h]

theorem advance_add (s : Service) (m n : Nat) (c : Connection) :
    c.advance s (m + n) = (c.advance s m).advance s n := by
  induction m generalizing c with
  | zero => rw [Nat.zero_add, advance]
  | succ m ih => rw [Nat.add_right_comm, advance, advance, ih]

theorem step_waiting (s : Service) {c : Connection} (hstage : c.stage = .awaiting)
    (hin : c.incoming.flatten = []) (hended : c.ended = false) : c.step s = c := by
  rw [step_awaiting s hstage, readRequest, receiveFrame_nothing s.maxFrame hin, hended]
  rfl

/-- A connection that waits for a request goes on waiting. -/
theorem advance_waiting (s : Service) (n : Nat) {c : Connection} (hstage : c.stage = .awaiting)
    (hin : c.incoming.flatten = []) (hended : c.ended = false) : c.advance s n = c := by
  induction n with
  | zero => rfl
  | succ n ih => rw [advance, step_waiting s hstage hin hended, ih]

/-! ## Frames -/

theorem frameOf_eq_ok_iff {r : Response} {bytes : Bytes} :
    frameOf r = .ok bytes ↔ ∃ reply, r.encode = .ok reply ∧ reply.length ≤ maxLength ∧ bytes = frame reply := by
  rw [Connection.frameOf]
  cases hencode : r.encode with
  | error e => exact ⟨nofun, fun ⟨_, hreply, _⟩ => nomatch hreply⟩
  | ok reply =>
    dsimp only
    constructor
    · intro h
      rw [writeFrame] at h
      split at h
      · next hfits => exact ⟨reply, rfl, hfits, (Except.ok.inj h).symm⟩
      · cases h
    · rintro ⟨_, ⟨⟩, hfits, rfl⟩
      exact writeFrame_eq hfits

theorem frameOf_long {r : Response} {reply : Bytes} (h : r.encode = .ok reply) (hlong : maxLength < reply.length) :
    frameOf r = .error (.frameTooLarge reply.length maxLength) := by
  rw [frameOf, h]
  exact if_neg (Nat.not_le.2 hlong)

/-! ## One request -/

/-- The request `payload` is right, and its response has the payload `reply`. -/
structure Answers (s : Service) (q : Query) (payload reply : Bytes) : Prop where
  query : queryOf payload = .ok q
  fits : payload.length ≤ maxLength
  short : payload.length ≤ s.maxFrame
  encode : (Response.ofAnswer (s.catalog.find q)).encode = .ok reply
  replyFits : reply.length ≤ maxLength

theorem Answers.frameOf {s : Service} {q : Query} {payload reply : Bytes}
    (h : Answers s q payload reply) :
    Connection.frameOf (.ofAnswer (s.catalog.find q)) = .ok (frame reply) :=
  frameOf_eq_ok_iff.2 ⟨reply, h.encode, h.replyFits, rfl⟩

/-- Three steps from a request to its response. -/
theorem advance_request {s : Service} {q : Query} {payload reply : Bytes}
    (h : Answers s q payload reply) {c : Connection} (hstage : c.stage = .awaiting)
    (hin : c.incoming.flatten = frame payload) (hended : c.ended = false) :
    ∃ left, left.flatten = [] ∧
      c.advance s 3 = { c with incoming := left, outgoing := c.outgoing ++ [frame reply] } := by
  obtain ⟨stage, incoming, ended, outgoing⟩ := c
  dsimp only at hstage hin hended
  subst hstage hended
  obtain ⟨left, hreceive, hleft⟩ := receiveFrame_frame h.fits h.short
    (show incoming.flatten = frame payload ++ [] by rw [hin, List.append_nil])
  have hread : step s ⟨.awaiting, incoming, false, outgoing⟩ =
      ⟨.processing q, left, false, outgoing⟩ := by
    show readRequest s _ = _
    rw [readRequest, hreceive]
    dsimp only
    rw [h.query]
  have hwrite : step s ⟨.responding (.ofAnswer (s.catalog.find q)), left, false, outgoing⟩ =
      ⟨.awaiting, left, false, outgoing ++ [frame reply]⟩ := by
    rw [step]
    dsimp only
    rw [h.frameOf]
  refine ⟨left, hleft, ?_⟩
  rw [advance, hread, advance, step]
  dsimp only
  rw [advance, hwrite, advance]

/-- A connection that is idle answers the request that comes next, and is idle again. -/
theorem settle_request {s : Service} {q : Query} {payload reply : Bytes}
    (h : Answers s q payload reply) {c : Connection} (hc : Idle c) :
    ∃ left, left.flatten = [] ∧
      (c.deliver (frame payload)).settle s = ⟨.awaiting, left, false, [frame reply]⟩ := by
  obtain ⟨stage, incoming, ended, outgoing⟩ := c
  obtain ⟨⟨hin, hout, hended⟩, hstage⟩ := hc
  dsimp only at hin hout hended hstage
  subst hout hended
  have hdelivered : (incoming ++ [frame payload]).flatten = frame payload := by
    rw [List.flatten_append, hin]
    exact List.append_nil _
  have hwaiting : ∀ n, 3 ≤ n → ∃ left, left.flatten = [] ∧
      advance s n ⟨.awaiting, incoming ++ [frame payload], false, []⟩ =
        ⟨.awaiting, left, false, [frame reply]⟩ := by
    intro n hn
    obtain ⟨left, hleft, hsteps⟩ := advance_request h
      (c := ⟨.awaiting, incoming ++ [frame payload], false, []⟩) rfl hdelivered rfl
    refine ⟨left, hleft, ?_⟩
    obtain ⟨more, rfl⟩ : ∃ more, n = 3 + more := ⟨n - 3, by omega⟩
    rw [advance_add, hsteps]
    exact advance_waiting s more rfl hleft rfl
  rw [settle, stepBound]
  rcases hstage with rfl | rfl
  · obtain ⟨left, hleft, hsteps⟩ := hwaiting
      (3 * (incoming ++ [frame payload]).flatten.length + 3) (Nat.le_add_left ..)
    exact ⟨left, hleft, hsteps⟩
  · exact hwaiting _ (by omega)

end FontCatalog.Connection
