import FontCatalog.Client
import FontCatalog.Network
import Std.Async.DNS
import Std.Async.Signal
import Std.Async.TCP
import Std.Async.Timer

/-! Servers and clients on real connections. What is read and written is decided by the connection and
the client; here are only the bytes that come and go. -/
namespace FontCatalog.Socket
set_option autoImplicit false
open Std.Async Std.Net

/-- How many bytes are asked for at once. -/
def chunkSize : UInt64 := 65536

/-- How long a client waits for bytes, in milliseconds. -/
def patience : Std.Time.Millisecond.Offset := 10000

/-- The addresses of the system that an address stands for. -/
def systemAddresses (a : Address) : IO (List SocketAddress) := do
  match IPv4Addr.ofString a.host, IPv6Addr.ofString a.host with
  | some v4, _ => return [.v4 ⟨v4, a.number⟩]
  | none, some v6 => return [.v6 ⟨v6, a.number⟩]
  | none, none =>
    let found ← try (DNS.getAddrInfo a.host "").block catch _ => pure #[]
    return found.toList.map fun
      | .v4 v4 => .v4 ⟨v4, a.number⟩
      | .v6 v6 => .v6 ⟨v6, a.number⟩

def bytesOf (data : ByteArray) : Bytes := data.toList

def dataOf (bytes : Bytes) : ByteArray := ⟨bytes.toArray⟩

/-- The number of an error of the system, which may be given as a negative word. -/
def numberOf (code : UInt32) : Nat := if code < 0x80000000 then code.toNat else (0 - code).toNat

/-- The error of the system, or `other` if it is none of those that are known. -/
def errorOf (other : OsError) (e : IO.Error) : OsError :=
  let code? : Option UInt32 := match e with
    | .alreadyExists _ n _ | .otherError n _ | .resourceBusy n _ | .resourceVanished n _
    | .unsupportedOperation n _ | .hardwareFault n _ | .unsatisfiedConstraints n _
    | .illegalOperation n _ | .protocolError n _ | .timeExpired n _ | .interrupted _ n _
    | .noFileOrDirectory _ n _ | .invalidArgument _ n _ | .permissionDenied _ n _
    | .resourceExhausted _ n _ | .inappropriateType _ n _ | .noSuchThing _ n _ => some n
    | .unexpectedEof | .userError _ => none
  (code?.bind fun n => OsError.ofNumber? (numberOf n)).getD other

/-! ## Servers -/

/-- Serves one connection until it is closed. -/
partial def serveConnection (s : Service) (socket : TCP.Socket.Client) (c : Connection) :
    Async Unit := do
  let c := c.settle s
  for frame in c.outgoing do
    socket.send (dataOf frame)
  let c := { c with outgoing := [] }
  if c.isClosed then socket.shutdown
  else
    match ← socket.recv? chunkSize with
    | some data => serveConnection s socket (c.deliver (bytesOf data))
    | none => serveConnection s socket c.hangUp

/-- Accepts connections until the program is interrupted. -/
partial def acceptAll (s : Service) (listener : TCP.Socket.Server) (interrupt : Signal.Waiter) :
    Async Unit := do
  let accepted ← Selectable.one #[
    .case listener.acceptSelector fun socket => pure (some socket),
    .case interrupt.selector fun _ => pure none]
  match accepted with
  | none => return
  | some socket =>
    background (serveConnection s socket {})
    acceptAll s listener interrupt

/-- Serves at an address until the program is interrupted; tells why if that cannot begin. -/
def serve (a : Address) (s : Service) : IO (Option OsError) := do
  match ← systemAddresses a with
  | [] => return some .unknownHost
  | place :: _ =>
    let listener ← TCP.Socket.Server.mk
    try
      listener.bind place
      listener.listen 1024
    catch e => return some (errorOf .noSuchAddress e)
    let interrupt ← Signal.Waiter.mk .sigint false
    (acceptAll s listener interrupt).block
    return none

/-! ## Clients -/

/-- The next bytes, or none at the end of the input or of the time. -/
def receiveChunk (socket : TCP.Socket.Client) : Async (Option Bytes × Bool) := do
  let clock ← Sleep.mk patience
  Selectable.one #[
    .case (socket.recvSelector chunkSize) fun data => pure (data.map bytesOf, true),
    .case clock.selector fun _ => pure (none, false)]

/-- Reads until the client has a frame, the input has ended or the time is over. -/
partial def receiveReply (socket : TCP.Socket.Client) (c : Client) :
    Async (Except Wire.Error Wire.Response) := do
  match Wire.readFrame c.maxFrame c.unread with
  | .error (.cut _) =>
    match ← receiveChunk socket with
    | (some bytes, _) => receiveReply socket (c.arrive bytes)
    | (none, ended) => return (c.receive ended).1
  | _ => return (c.receive false).1

/-- Connects to the first of these addresses that can be reached; the last error counts. -/
def connectFirst (last : OsError) :
    List SocketAddress → IO (Except OsError TCP.Socket.Client)
  | [] => return .error last
  | place :: rest => do
    let socket ← TCP.Socket.Client.mk
    match ← (socket.connect place).block.toBaseIO with
    | .ok () => return .ok socket
    | .error e => connectFirst (errorOf .unreachable e) rest

/-- Asks the server at an address; the outer error tells why it cannot be reached. -/
def ask (a : Address) (q : Query) : IO (Except OsError (Except Wire.Error Wire.Response)) := do
  match ← systemAddresses a with
  | [] => return .error .unknownHost
  | places =>
    match ← connectFirst .unreachable places with
    | .error e => return .error e
    | .ok socket =>
      match Client.frameOf q with
      | .error e => return .ok (.error e)
      | .ok frame =>
        try
          socket.noDelay
          (socket.send (dataOf frame)).block
          return .ok (← (receiveReply socket {}).block)
        catch _ => return .ok (.error (.cut .buffer))

end FontCatalog.Socket
