import FontCatalog.Proofs.Client
import FontCatalog.Proofs.Wire.Leftover

/-! Calls to a server that answers every request with one frame. A call that ends before its response has
been read leaves bytes of it in the stream, and the next call reads on from there. -/
namespace FontCatalog
set_option autoImplicit false
open Wire

/-- One call to a server that answers every request with one frame. -/
structure Call where
  query : Query
  /-- The payload of the response that the server gives to this query. -/
  reply : Bytes
  fits : reply.length ≤ maxLength
  /-- How many bytes come before the time for the call is over; none if the client waits for all. -/
  inTime : Option Nat := none

/-- A client, and the bytes that the server has written for it. -/
structure Dialogue where
  client : Client := {}
  underway : Bytes := []

namespace Call

/-- The request goes out. -/
def Sent (c : Call) : Prop := ∃ bytes, Client.frameOf c.query = .ok bytes

/-- The client turns away from a response before it has read all of it: it is too long, or it does not
come in time. -/
def BrokenOff (c : Call) : Prop :=
  c.Sent ∧ (defaultMaxFrame < c.reply.length ∨ ∃ n, c.inTime = some n ∧ n < (frame c.reply).length)

end Call

namespace Dialogue

/-- One call: the frame of its response comes after what is underway. -/
def call (d : Dialogue) (c : Call) : Except Wire.Error Response × Dialogue :=
  match Client.frameOf c.query with
  | .error e => (.error e, d)
  | .ok _ =>
    let stream := d.underway ++ frame c.reply
    let count := c.inTime.getD stream.length
    let (r, client) := (d.client.arrive (stream.take count)).receive false
    (r, ⟨client, stream.drop count⟩)

/-- What calls leave behind, one after the other. -/
def after : Dialogue → List Call → Dialogue
  | d, [] => d
  | d, c :: rest => (d.call c).2.after rest

/-- Each call that gets a response gets its own. -/
def Paired : Dialogue → List Call → Prop
  | _, [] => True
  | d, c :: rest =>
    (∀ r, (d.call c).1 = .ok r → Client.responseOf c.reply = .ok r) ∧ (d.call c).2.Paired rest

/-- What has been written for the client and has not been read. -/
def leftover (d : Dialogue) : Bytes := d.client.unread ++ d.underway

theorem paired_append (d : Dialogue) (first later : List Call) :
    d.Paired (first ++ later) ↔ d.Paired first ∧ (d.after first).Paired later := by
  induction first generalizing d with
  | nil => simp only [List.nil_append, Paired, after, true_and]
  | cons c first ih => rw [List.cons_append, Paired, Paired, after, ih, and_assoc]

/-! ## Calls that read all of their responses -/

theorem call_unsent {d : Dialogue} {c : Call} {e : Wire.Error} (h : Client.frameOf c.query = .error e) :
    d.call c = (.error e, d) := by
  rw [call, h]

theorem call_sent {d : Dialogue} {c : Call} (hsent : c.Sent) {stream : Bytes}
    (hstream : d.underway ++ frame c.reply = stream) :
    d.call c =
      (((d.client.arrive (stream.take (c.inTime.getD stream.length))).receive false).1,
        ⟨((d.client.arrive (stream.take (c.inTime.getD stream.length))).receive false).2,
          stream.drop (c.inTime.getD stream.length)⟩) := by
  obtain ⟨bytes, hframe⟩ := hsent
  rw [call, hframe]
  dsimp only
  rw [hstream]

/-- A call that is not broken off, with nothing before its response, leaves nothing. -/
theorem call_unbroken {c : Call} (hsent : c.Sent) (h : ¬ c.BrokenOff) :
    call {} c = (Client.responseOf c.reply, {}) := by
  have hshort : c.reply.length ≤ defaultMaxFrame :=
    Nat.not_lt.1 fun hlong => h ⟨hsent, .inl hlong⟩
  have hall : (frame c.reply).length ≤ c.inTime.getD (frame c.reply).length := by
    cases htime : c.inTime with
    | none => exact Nat.le_refl _
    | some n => exact Nat.not_lt.1 fun hlate => h ⟨hsent, .inr ⟨n, htime, hlate⟩⟩
  have hreceive := Client.receive_frame (c := { unread := frame c.reply }) c.fits hshort []
    (List.append_nil _).symm false
  have hstream : ({} : Dialogue).underway ++ frame c.reply = frame c.reply := List.nil_append _
  rw [call_sent hsent hstream, List.take_of_length_le hall, List.drop_of_length_le hall,
    Client.arrive, List.nil_append, hreceive]

theorem call_start {c : Call} (h : ¬ c.BrokenOff) :
    (call {} c).2 = {} ∧ ∀ r, (call {} c).1 = .ok r → Client.responseOf c.reply = .ok r := by
  cases hframe : Client.frameOf c.query with
  | error e =>
    rw [call_unsent hframe]
    refine ⟨rfl, fun r hr => ?_⟩
    cases hr
  | ok bytes =>
    rw [call_unbroken ⟨bytes, hframe⟩ h]
    exact ⟨rfl, fun r hr => hr⟩

theorem after_unbroken {calls : List Call} (h : ∀ c ∈ calls, ¬ c.BrokenOff) : after {} calls = {} := by
  induction calls with
  | nil => rfl
  | cons c calls ih =>
    rw [after, (call_start (h c List.mem_cons_self)).1]
    exact ih fun c hc => h c (List.mem_cons_of_mem _ hc)

/-! ## Calls that are broken off -/

/-- Of a response that is too long the payload stays. -/
theorem call_tooLarge {c : Call} (hsent : c.Sent) (hlong : defaultMaxFrame < c.reply.length)
    (hfour : 4 ≤ c.inTime.getD (frame c.reply).length) :
    (call {} c).1 = .error (.frameTooLarge c.reply.length defaultMaxFrame) ∧
      (call {} c).2.leftover = c.reply ∧ (call {} c).2.client.maxFrame = defaultMaxFrame := by
  have hstream : ({} : Dialogue).underway ++ frame c.reply = frame c.reply := List.nil_append _
  rw [call_sent hsent hstream, Client.arrive, List.nil_append]
  generalize c.inTime.getD (frame c.reply).length = n at hfour
  have hread := readFrame_tooLarge c.fits hfour hlong
  have hle : 4 ≤ ((frame c.reply).take n).length := by
    rw [List.length_take, length_frame]
    omega
  rw [Client.receive, leftover]
  dsimp only
  rw [hread]
  refine ⟨rfl, ?_, rfl⟩
  dsimp only
  rw [← List.drop_append_of_le_length hle, List.take_append_drop]
  exact List.drop_left' (length_encodeLength _)

/-- Of a response that is late what has come is lost, and the rest is underway. -/
theorem call_late {c : Call} (hsent : c.Sent) {n : Nat} (htime : c.inTime = some n)
    (hlate : n < (frame c.reply).length) (hunknown : n < 4 ∨ c.reply.length ≤ defaultMaxFrame) :
    (call {} c).1 = .error (.os .wouldBlock) ∧ (call {} c).2.leftover = (frame c.reply).drop n ∧
      (call {} c).2.client.maxFrame = defaultMaxFrame := by
  have hstream : ({} : Dialogue).underway ++ frame c.reply = frame c.reply := List.nil_append _
  have hread : readFrame defaultMaxFrame ((frame c.reply).take n) = .error (.cut .buffer) :=
    readFrame_cut c.fits hlate hunknown
  rw [call_sent hsent hstream, Client.arrive, List.nil_append, htime, Option.getD_some, Client.receive,
    leftover]
  dsimp only
  rw [hread]
  exact ⟨rfl, rfl, rfl⟩

/-- A call that is broken off gets no response and leaves bytes behind. -/
theorem call_brokenOff {c : Call} (h : c.BrokenOff) :
    (∃ e, (call {} c).1 = .error e) ∧ (call {} c).2.leftover ≠ [] ∧
      (call {} c).2.client.maxFrame = defaultMaxFrame := by
  obtain ⟨hsent, hbroken⟩ := h
  by_cases hknown : defaultMaxFrame < c.reply.length ∧ 4 ≤ c.inTime.getD (frame c.reply).length
  · obtain ⟨herror, hleftover, hmax⟩ := call_tooLarge hsent hknown.1 hknown.2
    refine ⟨⟨_, herror⟩, fun hnil => ?_, hmax⟩
    rw [← hleftover, hnil] at hknown
    exact absurd hknown.1 (Nat.not_lt_zero _)
  · obtain ⟨n, htime, hlate⟩ : ∃ n, c.inTime = some n ∧ n < (frame c.reply).length := by
      rcases hbroken with hlong | hlate
      · cases htime : c.inTime with
        | none =>
          rw [htime, Option.getD_none, length_frame] at hknown
          omega
        | some n =>
          rw [htime, Option.getD_some] at hknown
          refine ⟨n, rfl, ?_⟩
          rw [length_frame]
          omega
      · exact hlate
    rw [htime, Option.getD_some] at hknown
    obtain ⟨herror, hleftover, hmax⟩ := call_late hsent htime hlate (by omega)
    refine ⟨⟨_, herror⟩, fun hnil => ?_, hmax⟩
    rw [hleftover, List.drop_eq_nil_iff] at hnil
    omega

/-- A call that waits for all that comes reads once. -/
theorem call_prompt {d : Dialogue} {c : Call} (hsent : c.Sent) (htime : c.inTime = none)
    {left : Bytes} (h : rest? d.client.maxFrame (d.leftover ++ frame c.reply) = some left) :
    (d.call c).2.leftover = left ∧ (d.call c).2.client.maxFrame = d.client.maxFrame := by
  rw [call_sent hsent rfl, htime, Option.getD_none, List.take_length, List.drop_length, Client.arrive,
    Client.receive]
  dsimp only
  rw [leftover, List.append_assoc, rest?] at h
  rw [leftover]
  cases hread : readFrame d.client.maxFrame (d.client.unread ++ (d.underway ++ frame c.reply)) with
  | ok got =>
    rw [hread] at h
    exact ⟨(List.append_nil _).trans (Option.some.inj h), rfl⟩
  | error e =>
    rw [hread] at h
    cases e with
    | cut place => cases h
    | _ => exact ⟨(List.append_nil _).trans (Option.some.inj h), rfl⟩

/-- A call that finds a whole frame before its response reads that frame. -/
theorem call_frame {d : Dialogue} {c : Call} (hsent : c.Sent) (htime : c.inTime = none)
    {payload rest : Bytes} (hfits : payload.length ≤ maxLength)
    (hmax : payload.length ≤ d.client.maxFrame) (h : d.leftover = frame payload ++ rest) :
    d.call c = (Client.responseOf payload,
      ⟨{ d.client with unread := rest ++ frame c.reply }, []⟩) := by
  have hunread : (d.client.arrive (d.underway ++ frame c.reply)).unread =
      frame payload ++ (rest ++ frame c.reply) := by
    rw [Client.arrive, ← List.append_assoc, ← List.append_assoc]
    exact congrArg (· ++ frame c.reply) h
  have hreceive := Client.receive_frame (c := d.client.arrive (d.underway ++ frame c.reply)) hfits hmax
    _ hunread false
  rw [call_sent hsent rfl, htime, Option.getD_none, List.take_length, List.drop_length, hreceive]
  rfl

/-- Calls that wait read once each, and their responses queue up. -/
theorem after_replicate {d : Dialogue} {c : Call} (hsent : c.Sent) (htime : c.inTime = none) {n : Nat}
    {left : Bytes} (h : drain? d.client.maxFrame n d.leftover = some left) :
    (d.after (List.replicate n c)).leftover = left ++ (List.replicate n (frame c.reply)).flatten ∧
      (d.after (List.replicate n c)).client.maxFrame = d.client.maxFrame := by
  induction n generalizing d left with
  | zero =>
    cases h
    exact ⟨(List.append_nil _).symm, rfl⟩
  | succ n ih =>
    obtain ⟨first, hfirst, hrest⟩ := Option.bind_eq_some_iff.1 h
    obtain ⟨hleft, hmax⟩ := call_prompt hsent htime (rest?_append hfirst (frame c.reply))
    have hdrain : drain? (d.call c).2.client.maxFrame n (d.call c).2.leftover =
        some (left ++ frame c.reply) := by
      rw [hleft, hmax]
      exact drain?_append hrest _
    obtain ⟨hall, hmax'⟩ := ih hdrain
    rw [List.replicate_succ, after, hall, hmax', hmax, List.replicate_succ, List.flatten_cons,
      List.append_assoc]
    exact ⟨rfl, rfl⟩

end Dialogue

/-! ## A server that answers -/

/-- A call to a service that can answer is a call to a server that answers with one frame, and the
connection waits for the next request. -/
theorem Exchange.askWithin_eq_call {s : Service} {x : Exchange} (hx : x.connection.Idle) {q : Query}
    {bytes reply : Bytes} (hframe : Client.frameOf q = .ok bytes)
    (hshort : (Request.ofQuery q).encode.length ≤ s.maxFrame)
    (hreply : (Response.ofAnswer (s.catalog.find q)).encode = .ok reply)
    (hfits : reply.length ≤ maxLength) {count : Nat} {r : Except Wire.Error Response} {d : Dialogue}
    (hcall : Dialogue.call ⟨x.client, x.underway⟩ ⟨q, reply, hfits, some count⟩ = (r, d)) :
    ∃ connection, connection.Idle ∧
      x.askWithin s q count = (r, ⟨d.client, connection, d.underway⟩) := by
  obtain ⟨left, hleft, hsend⟩ := send_idle hx hframe hshort hreply hfits
  have hsent : Call.Sent ⟨q, reply, hfits, some count⟩ := ⟨bytes, hframe⟩
  rw [Dialogue.call_sent hsent rfl] at hcall
  cases hcall
  refine ⟨⟨.awaiting, left, false, []⟩, ⟨⟨hleft, rfl, rfl⟩, .inr rfl⟩, ?_⟩
  rw [askWithin, hsend]
  dsimp only
  rw [receive_open rfl]
  rfl

end FontCatalog
