import FontCatalog.OsError
import FontCatalog.Server.Service
import FontCatalog.Text.Digits

/-! Addresses of servers, written as a host and a number with a colon between them, and what answers
there. -/
namespace FontCatalog
set_option autoImplicit false

structure Address where
  host : String
  number : UInt16
  deriving DecidableEq, Repr

namespace Address

/-! ## Reading -/

/-- A number of sixteen bits. -/
def number? (text : List Char) : Option UInt16 :=
  (Text.unsigned? text).bind fun n => if n < 0x10000 then some n.toUInt16 else none

/-- The last colon ends the host; brackets around the host are left out. -/
def ofText (text : String) : Except OsError Address :=
  let reversed := text.toList.reverse
  match reversed.dropWhile (· != ':') with
  | [] => .error .noNumber
  | _ :: host =>
    match number? (reversed.takeWhile (· != ':')).reverse with
    | none => .error .badNumber
    | some number =>
      let host := match host.reverse with
        | '[' :: rest => if rest.getLast? = some ']' then rest.dropLast else '[' :: rest
        | host => host
      .ok ⟨String.ofList host, number⟩

/-- Whether a host is given by a number: four numbers up to 255 with points between them, or
hexadecimal digits with colons. -/
def isNumeric (host : String) : Bool :=
  let parts := host.splitOn "."
  let quarter (s : String) : Bool :=
    s.length ≤ 3 && (Text.number? s.toList).any (· < 256)
  (parts.length == 4 && parts.all quarter)
    || (host.contains ':' && host.toList.all fun c =>
      c == ':' || c == '.' || c.isDigit || ('a' ≤ c.toLower && c.toLower ≤ 'f'))

end Address

/-- What can be reached from here. -/
structure Network where
  /-- The hosts that are known by name. -/
  knows : String → Bool := (· == "localhost")
  /-- What serves at an address. -/
  connect : Address → Except OsError Service
  /-- Whether one may serve at an address. -/
  bind : Address → Except OsError Unit

namespace Network

/-- The address that a text stands for. -/
def resolve (n : Network) (text : String) : Except OsError Address :=
  match Address.ofText text with
  | .error e => .error e
  | .ok a =>
    if a.host.contains '\x00' then .error .zeroByte
    else if Address.isNumeric a.host || n.knows a.host then .ok a
    else .error .unknownHost

/-- A network in which one may serve but nothing is reached. -/
def cut : Network where
  connect _ := .error .unreachable
  bind _ := .ok ()

/-- A network with one service. -/
def withService (a : Address) (s : Service) : Network where
  connect b := if a = b then .ok s else .error .refused
  bind _ := .ok ()

end Network

end FontCatalog
