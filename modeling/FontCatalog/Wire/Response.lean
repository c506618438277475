import FontCatalog.Face.Json
import FontCatalog.Wire.Request

/-! Responses: the face that was found and its rung, or that none was found, as compact JSON. The
members other than the version are set aside while the object is read, and looked at afterwards. -/
namespace FontCatalog.Wire
set_option autoImplicit false
open Json

/-- What a renderer needs to load a face. -/
structure FaceSummary where
  path : Path
  index : UInt32
  fullName : String
  postscriptName : String
  win32Family : String
  weight : UInt16
  italic : Bool
  deriving DecidableEq, Repr, Inhabited

inductive Outcome where
  | found (tier : Tier) (face : FaceSummary)
  | notFound
  deriving DecidableEq, Repr, Inhabited

structure Response where
  version : UInt32
  outcome : Outcome
  deriving DecidableEq, Repr, Inhabited

/-! ## Summaries -/

namespace FaceSummary

def ofFace (f : Face) : FaceSummary :=
  ⟨f.path, f.index, f.fullName, f.postscriptName, f.win32Family, f.weight, f.italic⟩

def id (s : FaceSummary) : FaceId := ⟨s.path, s.index⟩

def toJson? (s : FaceSummary) : Option Json :=
  s.path.toJson?.map fun path =>
    .object [("path", path), ("index", .nat s.index.toNat), ("full_name", .text s.fullName),
      ("postscript_name", .text s.postscriptName), ("win32_family_name", .text s.win32Family),
      ("weight", .nat s.weight.toNat), ("italic", .bool s.italic)]

def shape : Shape :=
  .record "FaceSummary" [⟨"path", .path, false⟩, ⟨"index", .word32, false⟩,
    ⟨"full_name", .text, false⟩, ⟨"postscript_name", .text, false⟩,
    ⟨"win32_family_name", .text, false⟩, ⟨"weight", .word16, false⟩, ⟨"italic", .boolean, false⟩]

def ofJson (v : Json) : FaceSummary where
  path := .ofString (v.member "path" toText "")
  index := (v.member "index" toNat 0).toUInt32
  fullName := v.member "full_name" toText ""
  postscriptName := v.member "postscript_name" toText ""
  win32Family := v.member "win32_family_name" toText ""
  weight := (v.member "weight" toNat 0).toUInt16
  italic := v.member "italic" toBool false

end FaceSummary

namespace Response

def notFound : Response := ⟨protocolVersion, .notFound⟩

def ofAnswer : Answer → Response
  | .found face tier => ⟨protocolVersion, .found tier (.ofFace face)⟩
  | .notFound => notFound

def face? (r : Response) : Option FaceSummary :=
  match r.outcome with
  | .found _ face => some face
  | .notFound => none

def tier? (r : Response) : Option Tier :=
  match r.outcome with
  | .found tier _ => some tier
  | .notFound => none

/-! ## Writing -/

def toJson? (r : Response) : Option Json :=
  let version : String × Json := ("version", .nat r.version.toNat)
  match r.outcome with
  | .notFound => some (.object [version, ("result", .text "not_found")])
  | .found tier face =>
    face.toJson?.map fun v =>
      .object [version, ("result", .text "found"), ("tier", .text tier.name), ("face", v)]

def encode (r : Response) : Except Error Bytes :=
  match r.toJson? with
  | some v => .ok (Text.encode v.render)
  | none => .error .unwritablePath

/-! ## Reading -/

/-- The members so far: the version, and the others with the last one first. -/
structure Members where
  version : Option Json := none
  others : List (String × Json) := []

/-- One member: the version is read at once, every other one is set aside. -/
def readMember (length : Nat) (m : Members) (name : String) : Reading Mismatch Members := fun bs =>
  if name == "version" then
    if m.version.isSome then mismatch (.repeated name)
    else
      match readColon bs with
      | .error e => .error e
      | .ok rest =>
        match Shape.word32.ofText length rest with
        | .error e => .error e
        | .ok (v, rest) => .ok ({ m with version := some v }, rest)
  else
    match readColon bs with
    | .error e => .error e
    | .ok rest =>
      match readValue length (maxDepth - 1) rest with
      | .error e => .error e
      | .ok (v, rest) => .ok ({ m with others := (name, v) :: m.others }, rest)

/-- Whether a face was found, by the name of the result or its number. -/
def resultOf : Json → Except Mismatch Bool
  | .text "found" => .ok true
  | .text "not_found" => .ok false
  | .text s => .error (.unknownVariant s ["found", "not_found"])
  | .number (.integer 0) => .ok true
  | .number (.integer 1) => .ok false
  | .number (.integer i) =>
    if i < 0 then .error (.wrongType (.number (.integer i)) "variant identifier")
    else .error (.wrongValue (.number (.integer i)) "variant index 0 <= i < 2")
  | v => .error (.wrongType v.found "variant identifier")

/-- The result among the members, and the other members. -/
def takeResult (result : Option Bool) (others : List (String × Json)) :
    List (String × Json) → Except Mismatch (Bool × List (String × Json))
  | [] =>
    match result with
    | some r => .ok (r, others.reverse)
    | none => .error (.missing "result")
  | (name, v) :: rest =>
    if name == "result" then
      if result.isSome then .error (.repeated "result")
      else
        match resultOf v with
        | .error m => .error m
        | .ok r => takeResult (some r) others rest
    else takeResult result ((name, v) :: others) rest

def tierNamed (s : String) : Except Mismatch Tier :=
  match Tier.ofName? s with
  | some t => .ok t
  | none => .error (.unknownVariant s (Tier.all.map Tier.name))

/-- A rung: its name, or an object with its name alone and nothing in it. -/
def tierOf : Json → Except Mismatch Tier
  | .text s => tierNamed s
  | .object [(s, v)] =>
    match tierNamed s with
    | .error m => .error m
    | .ok t =>
      match v with
      | .null | .object [] => .ok t
      | v => .error (.wrongType v.found "unit")
  | .object _ => .error (.wrongValue .object "map with a single key")
  | v => .error (.wrongType v.found "string or map")

/-- The shape of a rung, in normal form its name. -/
def tierShape : Shape where
  ofTree _ v := (tierOf v).map fun t => .text t.name
  ofText length bs :=
    match readValue length maxDepth bs with
    | .error e => .error e
    | .ok (v, rest) =>
      match tierOf v with
      | .error m => mismatch m
      | .ok t => .ok (.text t.name, rest)

/-- The members that stand beside the result `found`. -/
def foundShape : Shape :=
  .record "variant ResponseBody::Found" [⟨"tier", tierShape, false⟩,
    ⟨"face", FaceSummary.shape, false⟩]

def outcomeOf (members : List (String × Json)) : Except Mismatch Outcome :=
  match takeResult none [] members with
  | .error m => .error m
  | .ok (false, _) => .ok .notFound
  | .ok (true, others) =>
    match foundShape.ofTree .aside (.object others) with
    | .error m => .error m
    | .ok v =>
      let tier := (v.get? "tier").bind fun w => Tier.ofName? w.toText
      .ok (.found (tier.getD .fuzzy) (v.member "face" FaceSummary.ofJson default))

def readResponse (length : Nat) : Reading Mismatch Response := fun bs =>
  match skipSpace bs with
  | [] => early
  | b :: rest =>
    if b == byte '\x7b' then
      match readMembers length (readMember length) (length + 1) true {} rest with
      | .error e => .error e
      | .ok (members, rest) =>
        match members.version with
        | none => mismatch (.missing "version")
        | some version =>
          match outcomeOf members.others.reverse with
          | .error m => mismatch m
          | .ok outcome => .ok (⟨version.toNat.toUInt32, outcome⟩, rest)
    else
      match refuse "struct QueryResponse" length (b :: rest) with
      | .error e => .error e
      | .ok _ => malformed

def decode (payload : Bytes) : Except Error Response :=
  match finish (readResponse payload.length payload) with
  | .error t => .error (.malformed t)
  | .ok r => .ok r

end Response

end FontCatalog.Wire
