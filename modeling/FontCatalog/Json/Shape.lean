import FontCatalog.Json.Skip
import FontCatalog.Json.Writer
import FontCatalog.Text.Quoted

/-! What a reader wants from JSON: a shape checks a value, from a tree or straight from text, and
gives it in normal form. In normal form a record is an object with its known members in the order of
the record; it may be written as an array of them as well. -/
namespace FontCatalog.Json
set_option autoImplicit false

/-! ## Mismatches -/

/-- What was found where something else was wanted. -/
inductive Found where
  | null
  | bool (b : Bool)
  | number (n : Number)
  | text (s : String)
  | list
  | object
  deriving Repr

def Found.message : Found → String
  | .null => "null"
  | .bool b => "boolean `" ++ toString b ++ "`"
  | .number (.integer i) => "integer `" ++ toString i ++ "`"
  | .number n => "floating point `" ++ n.toText ++ "`"
  | .text s => "string " ++ Text.quoted s
  | .list => "sequence"
  | .object => "map"

def found : Json → Found
  | .null => .null
  | .bool b => .bool b
  | .number n => .number n
  | .text s => .text s
  | .list _ => .list
  | .object _ => .object

/-- Why a value does not have a shape. -/
inductive Mismatch where
  | wrongType (got : Found) (want : String)
  | wrongValue (got : Found) (want : String)
  | wrongLength (length : Nat) (want : String)
  | missing (field : String)
  | repeated (field : String)
  | unknownVariant (name : String) (expected : List String)
  deriving Repr

/-- The choices in words, each in backticks. -/
def choices : List String → String
  | [a] => "`" ++ a ++ "`"
  | [a, b] => "`" ++ a ++ "` or `" ++ b ++ "`"
  | names => "one of " ++ String.intercalate ", " (names.map fun n => "`" ++ n ++ "`")

def Mismatch.message : Mismatch → String
  | .wrongType got want => "invalid type: " ++ got.message ++ ", expected " ++ want
  | .wrongValue got want => "invalid value: " ++ got.message ++ ", expected " ++ want
  | .wrongLength length want => "invalid length " ++ toString length ++ ", expected " ++ want
  | .missing field => "missing field `" ++ field ++ "`"
  | .repeated field => "duplicate field `" ++ field ++ "`"
  | .unknownVariant name expected => "unknown variant `" ++ name ++ "`, expected " ++ choices expected

/-! ## Shapes -/

/-- Where a tree comes from: a document read as a whole, or members set aside while the rest of a
message was read. They differ in what is said of an array that is too long. -/
inductive Origin where
  | document
  | aside
  deriving DecidableEq, Repr

structure Shape where
  ofTree : Origin → Json → Except Mismatch Json
  ofText : Nat → Reading Mismatch Json

def mismatch {α : Type} (m : Mismatch) : Except (Trouble Mismatch) α := .error (.meaning m)

/-- Refuses the value that begins at `bs`, a scalar after it has been read. -/
def refuse (want : String) (length : Nat) : Reading Mismatch Json := fun bs =>
  match skipSpace bs with
  | [] => early
  | b :: rest =>
    if b == byte '[' then mismatch (.wrongType .list want)
    else if b == byte '\x7b' then mismatch (.wrongType .object want)
    else
      match readValue length 0 (b :: rest) with
      | .error e => .error e
      | .ok (v, _) => mismatch (.wrongType v.found want)

namespace Shape

/-! ## Scalars -/

/-- A string, called `want` where it is missed. -/
def string (want : String) : Shape where
  ofTree _ v :=
    match v with
    | .text s => .ok (.text s)
    | v => .error (.wrongType v.found want)
  ofText length bs :=
    match skipSpace bs with
    | [] => early
    | b :: rest =>
      if b == byte '"' then
        match readText length rest with
        | .error e => .error e
        | .ok (s, rest) => .ok (.text s, rest)
      else refuse want length (b :: rest)

def text : Shape := string "a string"

def path : Shape := string "path string"

def boolean : Shape where
  ofTree _ v :=
    match v with
    | .bool b => .ok (.bool b)
    | v => .error (.wrongType v.found "a boolean")
  ofText length bs :=
    match skipSpace bs with
    | [] => early
    | b :: rest =>
      if b == byte 't' || b == byte 'f' then readValue length 0 (b :: rest)
      else refuse "a boolean" length (b :: rest)

/-- A number as an integer from 0 to `2^bits - 1`. -/
def toWord (bits : Nat) (name : String) : Number → Except Mismatch Json
  | .integer i =>
    if 0 ≤ i ∧ i.toNat < Nat.pow 2 bits then .ok (.number (.integer i))
    else .error (.wrongValue (.number (.integer i)) name)
  | n => .error (.wrongType (.number n) name)

/-- An integer from 0 to `2^bits - 1`. -/
def word (bits : Nat) (name : String) : Shape where
  ofTree _ v :=
    match v with
    | .number n => toWord bits name n
    | v => .error (.wrongType v.found name)
  ofText length bs :=
    match skipSpace bs with
    | [] => early
    | b :: rest =>
      if b == byte '-' || isDigit b then
        match readValue length 0 (b :: rest) with
        | .error e => .error e
        | .ok (.number n, rest) =>
          match toWord bits name n with
          | .error m => mismatch m
          | .ok v => .ok (v, rest)
        | .ok (v, _) => mismatch (.wrongType v.found name)
      else refuse name length (b :: rest)

def word16 : Shape := word 16 "u16"

def word32 : Shape := word 32 "u32"

def word64 : Shape := word 64 "usize"

/-- A value of shape `s`, or null. -/
def optional (s : Shape) : Shape where
  ofTree origin v :=
    match v with
    | .null => .ok .null
    | v => s.ofTree origin v
  ofText length bs :=
    match skipSpace bs with
    | [] => early
    | b :: rest =>
      if b == byte 'n' then readValue length 0 (b :: rest) else s.ofText length (b :: rest)

/-! ## Lists -/

def mapItems (f : Json → Except Mismatch Json) : List Json → Except Mismatch (List Json)
  | [] => .ok []
  | v :: rest =>
    match f v with
    | .error m => .error m
    | .ok v =>
      match mapItems f rest with
      | .error m => .error m
      | .ok vs => .ok (v :: vs)

/-- A list of values of shape `s`. -/
def list (s : Shape) : Shape where
  ofTree origin v :=
    match v with
    | .list items => (mapItems (s.ofTree origin) items).map .list
    | v => .error (.wrongType v.found "a sequence")
  ofText length bs :=
    match skipSpace bs with
    | [] => early
    | b :: rest =>
      if b == byte '[' then
        match readItems (s.ofText length) (length + 1) true [] rest with
        | .error e => .error e
        | .ok (items, rest) => .ok (.list items, rest)
      else refuse "a sequence" length (b :: rest)

/-! ## Records -/

structure Field where
  name : String
  shape : Shape
  /-- Whether the member may be left out. -/
  optional : Bool := false

def findField (name : String) (fields : List Field) : Option Field :=
  fields.find? fun f => f.name == name

/-- The members that have been read, in the order of the record; one that may not be left out is
missed. -/
def collect (members : List (String × Json)) :
    List Field → Except Mismatch (List (String × Json))
  | [] => .ok []
  | f :: fields =>
    match lookup f.name members with
    | some v => (collect members fields).map ((f.name, v) :: ·)
    | none => if f.optional then collect members fields else .error (.missing f.name)

/-- Reads the known members in the order in which they stand. -/
def visit (origin : Origin) (fields : List Field) (seen : List (String × Json)) :
    List (String × Json) → Except Mismatch (List (String × Json))
  | [] => .ok seen
  | (name, v) :: rest =>
    match findField name fields with
    | none => visit origin fields seen rest
    | some f =>
      if (lookup name seen).isSome then .error (.repeated name)
      else
        match f.shape.ofTree origin v with
        | .error m => .error m
        | .ok v => visit origin fields ((name, v) :: seen) rest

/-- `count` elements of a record, in words. -/
def withElements (title : String) (count : Nat) : String :=
  "struct " ++ title ++ " with " ++ toString count
    ++ (if count == 1 then " element" else " elements")

/-- What is said of an array longer than the record. -/
def tooLong (origin : Origin) (count : Nat) : String :=
  match origin with
  | .document => "fewer elements in array"
  | .aside => toString count ++ (if count == 1 then " element" else " elements") ++ " in sequence"

/-- Reads the members from the elements of an array, `done` members having been dealt with. -/
def visitItems (origin : Origin) (title : String) (count done : Nat) :
    List Field → List Json → Except Mismatch (List (String × Json))
  | [], [] => .ok []
  | [], rest => .error (.wrongLength (done + rest.length) (tooLong origin count))
  | f :: fields, [] =>
    if f.optional then visitItems origin title count (done + 1) fields []
    else .error (.wrongLength done (withElements title count))
  | f :: fields, v :: rest =>
    match f.shape.ofTree origin v with
    | .error m => .error m
    | .ok v =>
      match visitItems origin title count (done + 1) fields rest with
      | .error m => .error m
      | .ok members => .ok ((f.name, v) :: members)

/-- One member of a record in a text: an unknown one is passed over. -/
def readMember (length : Nat) (fields : List Field) (seen : List (String × Json))
    (name : String) : Reading Mismatch (List (String × Json)) := fun bs =>
  match findField name fields with
  | none =>
    match readColon bs with
    | .error e => .error e
    | .ok rest =>
      match skipValue length rest with
      | .error e => .error e
      | .ok rest => .ok (seen, rest)
  | some f =>
    if (lookup name seen).isSome then mismatch (.repeated name)
    else
      match readColon bs with
      | .error e => .error e
      | .ok rest =>
        match f.shape.ofText length rest with
        | .error e => .error e
        | .ok (v, rest) => .ok ((name, v) :: seen, rest)

/-- The members of a record from the elements of an array in a text. -/
def readSlots (length : Nat) (title : String) (count : Nat) :
    Nat → List (String × Json) → List Field → Reading Mismatch (List (String × Json))
  | _, acc, [], bs =>
    match closeList bs with
    | .error e => .error e
    | .ok rest => .ok (acc.reverse, rest)
  | done, acc, f :: fields, bs =>
    match nextElement (done == 0) bs with
    | .error e => .error e
    | .ok none =>
      if f.optional then readSlots length title count (done + 1) acc fields bs
      else mismatch (.wrongLength done (withElements title count))
    | .ok (some rest) =>
      match f.shape.ofText length rest with
      | .error e => .error e
      | .ok (v, rest) => readSlots length title count (done + 1) ((f.name, v) :: acc) fields rest

/-- A record with these members. -/
def record (title : String) (fields : List Field) : Shape where
  ofTree origin v :=
    match v with
    | .object members =>
      match visit origin fields [] members with
      | .error m => .error m
      | .ok seen => (collect seen fields).map .object
    | .list items => (visitItems origin title fields.length 0 fields items).map .object
    | v => .error (.wrongType v.found ("struct " ++ title))
  ofText length bs :=
    match skipSpace bs with
    | [] => early
    | b :: rest =>
      if b == byte '\x7b' then
        match readMembers length (readMember length fields) (length + 1) true [] rest with
        | .error e => .error e
        | .ok (seen, rest) =>
          match collect seen fields with
          | .error m => mismatch m
          | .ok members => .ok (.object members, rest)
      else if b == byte '[' then
        match readSlots length title fields.length 0 [] fields rest with
        | .error e => .error e
        | .ok (members, rest) => .ok (.object members, rest)
      else refuse ("struct " ++ title) length (b :: rest)

/-- Reads a whole text of shape `s`. -/
def parse (s : Shape) (bs : Bytes) : Except (Trouble Mismatch) Json :=
  finish (s.ofText bs.length bs)

end Shape

/-! ## Values in normal form -/

def toText : Json → String
  | .text s => s
  | _ => ""

def toBool : Json → Bool
  | .bool b => b
  | _ => false

def toBool? : Json → Option Bool
  | .bool b => some b
  | _ => none

def toNat : Json → Nat
  | .number (.integer i) => i.toNat
  | _ => 0

def toList : Json → List Json
  | .list items => items
  | _ => []

/-- The member `name` read by `f`, or `absent` if it has been left out. -/
def member {α : Type} (v : Json) (name : String) (f : Json → α) (absent : α) : α :=
  match v.get? name with
  | some w => f w
  | none => absent

end FontCatalog.Json
