import FontCatalog.Catalog

/-! Finding the face for a request. The rungs of a ladder are tried in turn: the exact typographic
family, the exact Win32 family, the family by letters and numbers (for a name that may have been cut
also families that begin with it), and last the full name or the PostScript name. In a family the
wanted style picks the face; where no face has it, the first face is given. -/
namespace FontCatalog
set_option autoImplicit false

/-- A wanted style; `none` means that either is fine. -/
structure StyleHints where
  bold : Option Bool := none
  italic : Option Bool := none
  deriving DecidableEq, Repr, Inhabited

def StyleHints.accepts (s : StyleHints) (f : Face) : Bool :=
  s.bold.all (f.isBold == ·) && s.italic.all (f.italic == ·)

structure Query where
  family : String
  style : StyleHints := {}
  deriving DecidableEq, Repr, Inhabited

/-- The rung of the ladder that gave an answer. -/
inductive Tier where
  | exactTypographic
  | exactWin32
  | fuzzy
  | fullName
  deriving DecidableEq, Repr, Inhabited

namespace Tier

def name : Tier → String
  | .exactTypographic => "exact_typographic"
  | .exactWin32 => "exact_win32"
  | .fuzzy => "fuzzy"
  | .fullName => "full_name"

def all : List Tier := [.exactTypographic, .exactWin32, .fuzzy, .fullName]

def ofName? (s : String) : Option Tier := all.find? fun t => t.name == s

/-- Whether the whole family name was met. -/
def isExact : Tier → Bool
  | .exactTypographic | .exactWin32 => true
  | .fuzzy | .fullName => false

end Tier

inductive Answer where
  | found (face : Face) (tier : Tier)
  | notFound
  deriving DecidableEq, Repr, Inhabited

namespace Answer

def face? : Answer → Option Face
  | .found f _ => some f
  | .notFound => none

def tier? : Answer → Option Tier
  | .found _ t => some t
  | .notFound => none

end Answer

namespace Catalog

/-- The first group that has a face. -/
def firstGroup : List (FaceGroup × Tier) → Option (List Face × Tier)
  | [] => none
  | (g, t) :: rest => if g.faces.isEmpty then firstGroup rest else some (g.faces, t)

/-- The groups of the fuzzy rung in order. -/
def fuzzyGroups (c : Catalog) (name : String) : List FaceGroup :=
  if (Name.looseKey name).isEmpty then []
  else
    [c.typographicLoose name, c.win32Loose name] ++
      if Name.isTruncated name then [c.typographicStem name, c.win32Stem name] else []

/-- The faces of the family called `name`. -/
def familyCandidates (c : Catalog) (name : String) : Option (List Face × Tier) :=
  (firstGroup [(c.typographicExact name, .exactTypographic), (c.win32Exact name, .exactWin32)]).or
    (firstGroup ((c.fuzzyGroups name).map (·, .fuzzy)))

/-- The faces called `name` themselves. A PostScript name counts for PostScript outlines and a full
name for the others, unless that leaves none. -/
def nameCandidates (c : Catalog) (name : String) : List Face :=
  let byPostscript := (c.lookupPostscriptName name).faces
  let byFull := (c.lookupFullName name).faces
  let preferred := byPostscript.filter (·.psOutline) ++ byFull.filter (!·.psOutline)
  if preferred.isEmpty then byPostscript ++ byFull else preferred

/-- The first face of the wanted style, or else the first face. -/
def pick (style : StyleHints) (faces : List Face) : Option Face :=
  (faces.find? style.accepts).or faces.head?

def find (c : Catalog) (q : Query) : Answer :=
  let name := Name.undecorate q.family
  if Text.isBlankText name then .notFound
  else
    match c.familyCandidates name with
    | some (faces, tier) =>
      match pick q.style faces with
      | some f => .found f tier
      | none => .notFound
    | none =>
      match c.nameCandidates name with
      | f :: _ => .found f .fullName
      | [] => .notFound

end Catalog

end FontCatalog
