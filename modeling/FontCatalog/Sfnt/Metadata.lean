import FontCatalog.Face
import FontCatalog.Sfnt.Names
import FontCatalog.Text.Blank

/-! What the tables of a font say about a face: its names, its weight and slant, the kind of its
outlines. -/
namespace FontCatalog.Sfnt
set_option autoImplicit false

/-! ## Style -/

def italicBit : UInt16 := 0x0001

def boldBit : UInt16 := 0x0020

def obliqueBit : UInt16 := 0x0200

/-- Weight and slant from the weight class and the selection bits: no weight class means a regular
face, and a face that is marked bold is at least bold. -/
def styleOf (weightClass selection : UInt16) : UInt16 × Bool :=
  let weight := if weightClass = 0 then regularWeight else weightClass
  let weight := if selection &&& boldBit ≠ 0 ∧ weight < boldWeight then 700 else weight
  (weight, selection &&& (italicBit ||| obliqueBit) != 0)

/-- Whether a table of this tag holds PostScript outlines. -/
def isPostscriptTable (t : Nat) : Bool := t == tag "CFF " || t == tag "CFF2"

/-- How long the table OS/2 is at least in a version. -/
def metricsLength (version : Nat) : Nat :=
  if version ≥ 5 then 100 else if version ≥ 2 then 96 else if version ≥ 1 then 86 else 78

/-- The style that the table OS/2 states; regular and upright without a complete table. -/
def styleOfTable (table : Option ByteArray) : UInt16 × Bool :=
  match table with
  | none => (regularWeight, false)
  | some data =>
    if data.size < 78 || data.size < metricsLength (u16 data 0) then (regularWeight, false)
    else styleOf (u16 data 4).toUInt16 (u16 data 62).toUInt16

/-! ## Names -/

def familyId : Nat := 1

def fullNameId : Nat := 4

def postscriptId : Nat := 6

def typographicFamilyId : Nat := 16

/-- How the best of some texts with their languages is chosen. -/
abbrev Choice := List (Option String × String) → Option String

/-- The best text under a number, trimmed; empty if there is none. -/
def bestText (choice : Choice) (texts : Nat → List (Option String × String)) (name : Nat) : String :=
  ((choice (texts name)).map Text.trim).getD ""

/-- Adds a name unless it is empty or already there. -/
def addName (names : List LocalizedName) (entry : Option String × String) : List LocalizedName :=
  let name : LocalizedName := ⟨entry.1.getD "", Text.trim entry.2⟩
  if name.name.isEmpty || names.contains name then names else names ++ [name]

/-- The texts under a number with their languages, trimmed, each once. -/
def localizedNames (texts : Nat → List (Option String × String)) (name : Nat) :
    List LocalizedName :=
  (texts name).foldl addName []

/-! ## Faces -/

inductive FaceError where
  | read (e : ReadError)
  | nameless
  deriving DecidableEq, Repr

def FaceError.message : FaceError → String
  | .read e => e.message
  | .nameless => "face has no family name"

/-- The texts of the font by number; none without a readable name table. -/
def Font.texts (f : Font) : Nat → List (Option String × String) :=
  match (f.table? (tag "name")).bind NameTable.read? with
  | some t => t.texts
  | none => fun _ => []

def Font.metadata (choice : Choice) (f : Font) : Except FaceError FaceMetadata :=
  let family := bestText choice f.texts familyId
  if family.isEmpty then .error .nameless
  else
    let typographic := localizedNames f.texts typographicFamilyId
    let style := styleOfTable (f.table? (tag "OS/2"))
    .ok {
      fullName := bestText choice f.texts fullNameId
      postscriptName := bestText choice f.texts postscriptId
      win32Family := family
      typographicFamilies :=
        if typographic.isEmpty then localizedNames f.texts familyId else typographic
      weight := style.1
      italic := style.2
      psOutline := f.tables.any fun r => isPostscriptTable r.tag }

def Container.metadata (choice : Choice) (c : Container) (index : Nat) : Except FaceError FaceMetadata :=
  match c.font index with
  | .error e => .error (.read e)
  | .ok f => f.metadata choice

end FontCatalog.Sfnt
