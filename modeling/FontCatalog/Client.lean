import FontCatalog.Server.Connection

/-! A client asks one question at a time and reads one frame for it. A call that fails may leave bytes
of its response behind; the next call reads on from there. -/
namespace FontCatalog
set_option autoImplicit false

structure Client where
  /-- The longest response that is read. -/
  maxFrame : Nat := Wire.defaultMaxFrame
  /-- What has come and has not been read. -/
  unread : Bytes := []
  deriving Inhabited

namespace Client

/-- The frame of a request. -/
def frameOf (q : Query) : Except Wire.Error Bytes :=
  Wire.writeFrame (Wire.Request.ofQuery q).encode

/-- The response in a payload. -/
def responseOf (payload : Bytes) : Except Wire.Error Wire.Response :=
  match Wire.Response.decode payload with
  | .error e => .error e
  | .ok r =>
    if r.version = Wire.protocolVersion then .ok r else .error (.unsupportedVersion r.version)

/-- Reads the response to one call. What has come of a frame that is not complete is lost: either the
server has ended its side, or the time for the call is over. Of a frame that is too long only the
length is read. -/
def receive (c : Client) (ended : Bool) : Except Wire.Error Wire.Response × Client :=
  match Wire.readFrame c.maxFrame c.unread with
  | .ok (payload, rest) => (responseOf payload, { c with unread := rest })
  | .error (.cut place) =>
    (.error (if ended then .cut place else .os .wouldBlock), { c with unread := [] })
  | .error e => (.error e, { c with unread := c.unread.drop 4 })

/-- More bytes come. -/
def arrive (c : Client) (bytes : Bytes) : Client := { c with unread := c.unread ++ bytes }

end Client

/-! ## A client and the connection that answers it -/

structure Exchange where
  client : Client := {}
  connection : Connection := {}
  /-- What the server has written and has not reached the client. -/
  underway : Bytes := []
  deriving Inhabited

namespace Exchange

/-- A request goes out, and the server answers it. -/
def send (s : Service) (x : Exchange) (q : Query) : Except Wire.Error Exchange :=
  match Client.frameOf q with
  | .error e => .error e
  | .ok frame =>
    let c := (x.connection.deliver frame).settle s
    .ok { x with
      connection := { c with outgoing := [] }
      underway := x.underway ++ c.outgoing.flatten }

/-- So many bytes reach the client. -/
def deliver (x : Exchange) (count : Nat) : Exchange :=
  { x with
    client := x.client.arrive (x.underway.take count)
    underway := x.underway.drop count }

/-- Whether the client has all that it will ever get. -/
def isOver (x : Exchange) : Bool := x.connection.isClosed && x.underway.isEmpty

def receive (x : Exchange) : Except Wire.Error Wire.Response × Exchange :=
  let (r, client) := x.client.receive x.isOver
  (r, { x with client := client })

/-- One call, for which so many bytes reach the client in time. -/
def askWithin (s : Service) (x : Exchange) (q : Query) (count : Nat) :
    Except Wire.Error Wire.Response × Exchange :=
  match x.send s q with
  | .error e => (.error e, x)
  | .ok x => (x.deliver count).receive

/-- One call, with all the time that it takes. -/
def ask (s : Service) (x : Exchange) (q : Query) : Except Wire.Error Wire.Response × Exchange :=
  match x.send s q with
  | .error e => (.error e, x)
  | .ok x => (x.deliver x.underway.length).receive

/-- Calls one after the other. -/
def askAll (s : Service) : Exchange → List Query → List (Except Wire.Error Wire.Response)
  | _, [] => []
  | x, q :: rest =>
    let (r, x) := x.ask s q
    r :: askAll s x rest

end Exchange

end FontCatalog
