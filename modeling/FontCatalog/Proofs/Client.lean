import FontCatalog.Client
import FontCatalog.Proofs.Catalog.Document
import FontCatalog.Proofs.Match.Ladder
import FontCatalog.Proofs.Server.Connection

/-! A client that asks a server gets what the catalog finds, call after call. -/
namespace FontCatalog
set_option autoImplicit false
open Wire

/-! ## Responses of a catalog -/

theorem Wire.Response.version_ofAnswer (a : Answer) :
    (Response.ofAnswer a).version = protocolVersion := by
  cases a <;> rfl

/-- What a catalog finds can be sent, if all its paths are UTF-8. -/
theorem Catalog.encode_find {faces : List Face} (h : Textual (build faces).faces.toList) (q : Query) :
    ∃ reply, (Response.ofAnswer ((build faces).find q)).encode = .ok reply := by
  cases hfind : (build faces).find q with
  | notFound => exact ⟨_, rfl⟩
  | found f t =>
    have hmem : f ∈ (build faces).faces.toList := find_mem (q := q) (by rw [hfind]; rfl)
    obtain ⟨path, hpath⟩ := Option.isSome_iff_exists.1 (h f hmem)
    have hjson : (FaceSummary.ofFace f).toJson? = some ((FaceSummary.ofFace f).jsonWith path) := by
      rw [FaceSummary.toJson?, Path.toJson?]
      show Option.map _ (Option.map _ f.path.text?) = _
      rw [hpath]
      rfl
    rw [Response.encode, Response.ofAnswer, Response.toJson?]
    dsimp only
    rw [hjson]
    exact ⟨_, rfl⟩

/-- The request is short enough for the server, and the response for the client. -/
def Query.Fits (q : Query) (s : Service) (limit : Nat) : Prop :=
  (Request.ofQuery q).encode.length ≤ s.maxFrame ∧
    ∀ reply, (Response.ofAnswer (s.catalog.find q)).encode = .ok reply → reply.length ≤ limit

/-! ## Calls -/

namespace Client

theorem responseOf_encode {a : Answer} {reply : Bytes} (h : (Response.ofAnswer a).encode = .ok reply) :
    responseOf reply = .ok (.ofAnswer a) := by
  rw [responseOf, Response.decode_encode h]
  dsimp only
  rw [if_pos (Response.version_ofAnswer a)]

theorem receive_frame {c : Client} {reply : Bytes} (hfits : reply.length ≤ maxLength)
    (hmax : reply.length ≤ c.maxFrame) (rest : Bytes) (hunread : c.unread = frame reply ++ rest)
    (ended : Bool) : c.receive ended = (responseOf reply, { c with unread := rest }) := by
  rw [receive, hunread, readFrame_frame hfits hmax]

end Client

/-- A frame that was written is read back whole, whatever follows it, and the response in it is the one that
was written. -/
theorem Connection.frameOf_reads {a : Answer} {bytes : Bytes} (h : frameOf (.ofAnswer a) = .ok bytes) :
    ∃ reply, bytes = frame reply ∧ Client.responseOf reply = .ok (.ofAnswer a) ∧
      ∀ max, reply.length ≤ max → ∀ rest, readFrame max (bytes ++ rest) = .ok (reply, rest) := by
  obtain ⟨reply, hencode, hfits, rfl⟩ := frameOf_eq_ok_iff.1 h
  exact ⟨reply, rfl, Client.responseOf_encode hencode, fun _ hmax rest => readFrame_frame hfits hmax rest⟩

namespace Exchange

/-- Every call has had its response. -/
structure InStep (x : Exchange) : Prop where
  connection : x.connection.Idle
  underway : x.underway = []
  unread : x.client.unread = []

theorem inStep_start : InStep {} := ⟨⟨⟨rfl, rfl, rfl⟩, .inl rfl⟩, rfl, rfl⟩

/-- All that is underway reaches the client. -/
theorem deliver_all (x : Exchange) :
    x.deliver x.underway.length =
      { x with client := x.client.arrive x.underway, underway := [] } := by
  rw [deliver, List.take_length, List.drop_length]

/-- While the connection is open a call that needs more bytes goes on waiting for them. -/
theorem receive_open {x : Exchange} (h : x.connection.isClosed = false) :
    x.receive = ((x.client.receive false).1, { x with client := (x.client.receive false).2 }) := by
  rw [receive, isOver, h, Bool.false_and]

/-- What is sent is answered by one frame, which is underway then. -/
theorem send_idle {s : Service} {x : Exchange} (hx : x.connection.Idle) {q : Query}
    {bytes reply : Bytes} (hframe : Client.frameOf q = .ok bytes)
    (hshort : (Request.ofQuery q).encode.length ≤ s.maxFrame)
    (hreply : (Response.ofAnswer (s.catalog.find q)).encode = .ok reply)
    (hfits : reply.length ≤ maxLength) :
    ∃ left, left.flatten = [] ∧
      x.send s q = .ok ⟨x.client, ⟨.awaiting, left, false, []⟩, x.underway ++ frame reply⟩ := by
  obtain ⟨hlength, hbytes⟩ : (Request.ofQuery q).encode.length ≤ maxLength ∧
      frame (Request.ofQuery q).encode = bytes := by
    rw [Client.frameOf, writeFrame] at hframe
    split at hframe
    · next hle => exact ⟨hle, Except.ok.inj hframe⟩
    · cases hframe
  have hquery : Connection.queryOf (Request.ofQuery q).encode = .ok q := by
    rw [Connection.queryOf, Request.decode_encode]
    exact Request.toQuery_ofQuery q
  have hanswers : Connection.Answers s q (Request.ofQuery q).encode reply :=
    ⟨hquery, hlength, hshort, hreply, hfits⟩
  obtain ⟨left, hleft, hsettle⟩ := Connection.settle_request hanswers hx
  refine ⟨left, hleft, ?_⟩
  rw [send, hframe, ← hbytes]
  dsimp only
  rw [hsettle]
  simp

/-- A call that fits gets what the catalog finds, and the next call may follow. A request whose length
does not fit its four bytes is not sent. -/
theorem ask_inStep {faces : List Face} (h : Catalog.Textual (Catalog.build faces).faces.toList)
    {s : Service} (hs : s.catalog = Catalog.build faces) {x : Exchange} (hx : x.InStep)
    (hlimit : x.client.maxFrame ≤ maxLength) {q : Query} (hq : q.Fits s x.client.maxFrame) :
    ∃ x', x.ask s q = ((Client.frameOf q).map fun _ => Response.ofAnswer (s.catalog.find q), x') ∧
      x'.InStep ∧ x'.client.maxFrame = x.client.maxFrame := by
  obtain ⟨reply, hreply⟩ := Catalog.encode_find h q
  rw [← hs] at hreply
  have hshort := hq.2 reply hreply
  have hfits := Nat.le_trans hshort hlimit
  cases hframe : Client.frameOf q with
  | error e =>
    refine ⟨x, ?_, hx, rfl⟩
    rw [ask, send, hframe]
    rfl
  | ok bytes =>
    obtain ⟨left, hleft, hsend⟩ := send_idle hx.connection hframe hq.1 hreply hfits
    rw [hx.underway, List.nil_append] at hsend
    have hunread : (x.client.arrive (frame reply)).unread = frame reply ++ [] := by
      rw [Client.arrive, hx.unread, List.nil_append, List.append_nil]
    have hreceive := Client.receive_frame (c := x.client.arrive (frame reply)) hfits hshort [] hunread
      false
    refine ⟨⟨{ x.client with unread := [] }, ⟨.awaiting, left, false, []⟩, []⟩, ?_, ?_, rfl⟩
    · rw [ask, hsend]
      dsimp only
      rw [deliver_all, receive_open rfl]
      dsimp only
      rw [hreceive, Client.responseOf_encode hreply]
      rfl
    · exact ⟨⟨⟨hleft, rfl, rfl⟩, .inr rfl⟩, rfl, rfl⟩

/-- Calls that fit get what the catalog finds, one after the other. -/
theorem askAll_inStep {faces : List Face} (h : Catalog.Textual (Catalog.build faces).faces.toList)
    {s : Service} (hs : s.catalog = Catalog.build faces) {x : Exchange} (hx : x.InStep)
    (hlimit : x.client.maxFrame ≤ maxLength) {qs : List Query}
    (hqs : ∀ q ∈ qs, q.Fits s x.client.maxFrame) :
    x.askAll s qs =
      qs.map fun q => (Client.frameOf q).map fun _ => Response.ofAnswer (s.catalog.find q) := by
  induction qs generalizing x with
  | nil => rfl
  | cons q qs ih =>
    obtain ⟨x', hask, hx', hmax⟩ := ask_inStep h hs hx hlimit (hqs q List.mem_cons_self)
    have hrest : ∀ p ∈ qs, p.Fits s x'.client.maxFrame := by
      intro p hp
      rw [hmax]
      exact hqs p (List.mem_cons_of_mem _ hp)
    rw [askAll, hask, List.map_cons]
    dsimp only
    rw [ih hx' (by rwa [hmax]) hrest]

end Exchange

end FontCatalog
