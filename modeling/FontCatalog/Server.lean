import FontCatalog.Server.Connection

/-! A server with its connections and the replacements of its catalog. Each of these takes its steps by
itself, and a run of the server is any sequence of moves. -/
namespace FontCatalog
set_option autoImplicit false

structure Server where
  service : Service
  connections : List Connection := []
  replacements : List Replacement := []
  deriving Inhabited

/-- What may happen next. Connections and replacements go by the order in which they began. -/
inductive ServerMove where
  /-- a peer connects -/
  | accept
  /-- a peer sends bytes -/
  | deliver (number : Nat) (bytes : Bytes)
  /-- a peer ends its side -/
  | hangUp (number : Nat)
  /-- a peer takes a frame -/
  | collect (number : Nat)
  /-- a connection takes a step -/
  | advance (number : Nat)
  /-- a connection sees that the server was asked to stop -/
  | notice (number : Nat)
  /-- somebody asks for another catalog to be served -/
  | ask (c : Catalog)
  /-- a replacement takes a step -/
  | replace (number : Nat)
  | cancel

namespace Server

def serving (c : Catalog) (maxFrame : Nat) : Server where
  service := { catalog := c, maxFrame := maxFrame }

/-- The server with one of its connections changed. -/
def modify (s : Server) (number : Nat) (f : Connection → Connection) : Server :=
  { s with connections := s.connections.modify number f }

def step (s : Server) : ServerMove → Server
  | .accept =>
    if s.service.cancelled then s else { s with connections := s.connections ++ [{}] }
  | .deliver number bytes => s.modify number (·.deliver bytes)
  | .hangUp number => s.modify number (·.hangUp)
  | .collect number => s.modify number (·.collect.2)
  | .advance number => s.modify number (·.step s.service)
  | .notice number => s.modify number (·.notice s.service)
  | .ask c => { s with replacements := s.replacements ++ [.asked c] }
  | .replace number =>
    match s.replacements[number]? with
    | none => s
    | some r =>
      let (service, r) := r.step s.service
      { s with service := service, replacements := s.replacements.set number r }
  | .cancel => { s with service := s.service.cancel }

def run (s : Server) (moves : List ServerMove) : Server := moves.foldl step s

/-! ## Whole runs -/

/-- A replacement from beginning to end. -/
def swap (s : Server) (c : Catalog) : Server :=
  let number := s.replacements.length
  s.run [.ask c, .replace number, .replace number]

/-- Every connection answers all that has come. -/
def settle (s : Server) : Server :=
  { s with connections := s.connections.map (·.settle s.service) }

/-- The server is asked to stop, and all connections see it. -/
def stop (s : Server) : Server :=
  let s := s.settle.step .cancel
  { s with connections := s.connections.map (·.notice s.service) }

end Server

end FontCatalog
