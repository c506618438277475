import FontCatalog.Server.Service
import FontCatalog.Wire.Response

/-! One connection of a server. It waits for a request, looks the answer up in the catalog of that
moment, writes the response and waits again. The first request that is not right closes it without a
response. -/
namespace FontCatalog
set_option autoImplicit false

/-- Why a connection was closed. -/
inductive CloseReason where
  /-- the peer ended its side between two requests -/
  | peerClosed
  | cancelled
  | failed (e : Wire.Error)
  deriving Repr

inductive ConnectionStage where
  | connected
  | awaiting
  | processing (q : Query)
  | responding (r : Wire.Response)
  | closed (reason : CloseReason)
  deriving Repr

structure Connection where
  stage : ConnectionStage := .connected
  /-- What the peer has sent and the server has not read, in the chunks in which it came. -/
  incoming : List Bytes := []
  /-- Whether the peer has ended its side. -/
  ended : Bool := false
  /-- The frames that were written and the peer has not taken, the oldest first. -/
  outgoing : List Bytes := []
  deriving Inhabited

namespace Connection

def isClosed (c : Connection) : Bool :=
  match c.stage with
  | .closed _ => true
  | _ => false

/-! ## The peer -/

/-- The peer sends bytes, unless it has ended its side. -/
def deliver (c : Connection) (bytes : Bytes) : Connection :=
  if c.ended then c else { c with incoming := c.incoming ++ [bytes] }

/-- The peer ends its side. -/
def hangUp (c : Connection) : Connection := { c with ended := true }

/-- The peer takes the oldest frame. -/
def collect (c : Connection) : Option Bytes × Connection :=
  match c.outgoing with
  | [] => (none, c)
  | frame :: rest => (some frame, { c with outgoing := rest })

/-! ## The server -/

def close (c : Connection) (reason : CloseReason) : Connection := { c with stage := .closed reason }

/-- The query of a payload. -/
def queryOf (payload : Bytes) : Except Wire.Error Query :=
  match Wire.Request.decode payload with
  | .error e => .error e
  | .ok r => r.toQuery

/-- The frame of a response. -/
def frameOf (r : Wire.Response) : Except Wire.Error Bytes :=
  match r.encode with
  | .error e => .error e
  | .ok payload => Wire.writeFrame payload

/-- Takes the next request, if it has come in full. What is missing may still come, unless the peer
has ended its side. -/
def readRequest (s : Service) (c : Connection) : Connection :=
  match Wire.receiveFrame s.maxFrame c.incoming with
  | .ok (some (payload, rest)) =>
    match queryOf payload with
    | .ok q => { c with stage := .processing q, incoming := rest }
    | .error e => { c with incoming := rest }.close (.failed e)
  | .ok none => if c.ended then c.close .peerClosed else c
  | .error (.cut place) => if c.ended then c.close (.failed (.cut place)) else c
  | .error e => c.close (.failed e)

/-- One step of the server on a connection. -/
def step (s : Service) (c : Connection) : Connection :=
  match c.stage with
  | .connected => { c with stage := .awaiting }
  | .awaiting => c.readRequest s
  | .processing q => { c with stage := .responding (.ofAnswer (s.catalog.find q)) }
  | .responding r =>
    match frameOf r with
    | .ok frame => { c with stage := .awaiting, outgoing := c.outgoing ++ [frame] }
    | .error e => c.close (.failed e)
  | .closed _ => c

/-- The server sees that it was asked to stop, which it may do where it would wait. -/
def notice (s : Service) (c : Connection) : Connection :=
  if s.cancelled then
    match c.stage with
    | .awaiting | .responding _ => c.close .cancelled
    | _ => c
  else c

/-- Takes so many steps. -/
def advance (s : Service) : Nat → Connection → Connection
  | 0, c => c
  | steps + 1, c => advance s steps (c.step s)

/-- How many steps are enough for all that has come: a request has four bytes at least and takes three
steps. -/
def stepBound (c : Connection) : Nat := 3 * c.incoming.flatten.length + 4

/-- Goes on until there is nothing to do before the peer sends more. -/
def settle (s : Service) (c : Connection) : Connection := c.advance s c.stepBound

end Connection

end FontCatalog
