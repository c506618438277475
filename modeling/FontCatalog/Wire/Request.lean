import FontCatalog.Match
import FontCatalog.Wire.Error

/-! Requests: a query with the version of the protocol, as compact JSON. -/
namespace FontCatalog.Wire
set_option autoImplicit false
open Json

def protocolVersion : UInt32 := 1

structure Request where
  version : UInt32
  family : String
  bold : Option Bool := none
  italic : Option Bool := none
  deriving DecidableEq, Repr, Inhabited

namespace Request

def ofQuery (q : Query) : Request := ⟨protocolVersion, q.family, q.style.bold, q.style.italic⟩

/-- The query that is asked, if the version is known. -/
def toQuery (r : Request) : Except Error Query :=
  if r.version = protocolVersion then .ok ⟨r.family, ⟨r.bold, r.italic⟩⟩
  else .error (.unsupportedVersion r.version)

/-! ## JSON -/

/-- True, false or null. -/
def choiceToJson : Option Bool → Json
  | some b => .bool b
  | none => .null

def toJson (r : Request) : Json :=
  .object [("version", .nat r.version.toNat), ("family", .text r.family),
    ("bold", choiceToJson r.bold), ("italic", choiceToJson r.italic)]

def encode (r : Request) : Bytes := Text.encode r.toJson.render

def shape : Shape :=
  .record "QueryRequest" [⟨"version", .word32, false⟩, ⟨"family", .text, false⟩,
    ⟨"bold", .optional .boolean, true⟩, ⟨"italic", .optional .boolean, true⟩]

def ofJson (v : Json) : Request where
  version := (v.member "version" toNat 0).toUInt32
  family := v.member "family" toText ""
  bold := v.member "bold" toBool? none
  italic := v.member "italic" toBool? none

def decode (payload : Bytes) : Except Error Request :=
  match shape.parse payload with
  | .error t => .error (.malformed t)
  | .ok v => .ok (ofJson v)

end Request

end FontCatalog.Wire
