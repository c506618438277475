import FontCatalog.Text.Utf8

/-! Paths as sequences of bytes. Two paths are compared by their components, so that repeated
slashes, inner dots and a slash at the end do not matter. -/
namespace FontCatalog
set_option autoImplicit false

structure Path where
  bytes : Bytes
  deriving DecidableEq, Repr, Inhabited

namespace Path

def ofString (s : String) : Path := ⟨Text.encode s⟩

def slash : UInt8 := 0x2F

def dot : UInt8 := 0x2E

/-! ## Components -/

/-- One step of a path. -/
inductive Component where
  | root
  | here
  | up
  | name (bytes : Bytes)
  deriving DecidableEq, Repr

/-- A byte read from the right: the piece that it belongs to, and the pieces after that one. -/
def splitStep (b : UInt8) (s : Bytes × List Bytes) : Bytes × List Bytes :=
  if b == slash then ([], s.1 :: s.2) else (b :: s.1, s.2)

/-- The pieces between slashes, empty ones included. -/
def pieces (bs : Bytes) : List Bytes :=
  let s := bs.foldr splitStep ([], [])
  s.1 :: s.2

/-- The component that a piece stands for after the first place. -/
def componentOf (piece : Bytes) : Option Component :=
  if piece = [] ∨ piece = [dot] then none
  else if piece = [dot, dot] then some .up
  else some (.name piece)

/-- A dot counts only where a relative path begins with it. -/
def components (p : Path) : List Component :=
  match pieces p.bytes with
  | [] => []
  | first :: rest =>
    let inner := rest.filterMap componentOf
    if first = [] then
      if p.bytes = [] then [] else .root :: inner
    else if first = [dot] then .here :: inner
    else (componentOf first).toList ++ inner

/-- Components in numbers: the root, a dot and two dots come before all names. -/
def Component.key : Component → List Nat
  | .root => [0]
  | .here => [1]
  | .up => [2]
  | .name bytes => 3 :: bytes.map (·.toNat)

def key (p : Path) : List (List Nat) := p.components.map Component.key

instance : Ord Path where
  compare p q := compare p.key q.key

/-- Whether two paths have the same components. -/
def same (p q : Path) : Bool := p.key == q.key

/-! ## Text -/

/-- The path as a text, if it is valid UTF-8. -/
def text? (p : Path) : Option String := Text.decode? p.bytes

/-- The path for a reader, with U+FFFD for what is not UTF-8. -/
def display (p : Path) : String := Text.decodeLossy p.bytes

/-! ## Parts -/

/-- The last component, if it is a name. -/
def fileName? (p : Path) : Option Bytes :=
  match p.components.getLast? with
  | some (.name bytes) => some bytes
  | _ => none

/-- What follows the last dot of the file name; a dot in front does not count. -/
def extension? (p : Path) : Option Bytes :=
  match p.fileName? with
  | none => none
  | some name =>
    let after := name.reverse.takeWhile (· != dot)
    let before := (name.reverse.drop (after.length + 1)).reverse
    if after.length == name.length || before.isEmpty then none else some after.reverse

/-- Without the slashes and dots at the end that do not matter. -/
def trimTail (bs : Bytes) : Bytes :=
  let rec go : Nat → Bytes → Bytes
    | 0, r => r
    | fuel + 1, r =>
      match r with
      | b :: rest =>
        if b == slash then if rest.isEmpty then r else go fuel rest
        else if b == dot then
          match rest with
          | c :: rest' => if c == slash && !rest'.isEmpty then go fuel rest else r
          | [] => r
        else r
      | [] => []
  (go bs.length bs.reverse).reverse

/-- The path without its last component, none for the root and for the empty path. -/
def parent? (p : Path) : Option Path :=
  match p.components.getLast? with
  | none => none
  | some .root => none
  | some _ =>
    let shown := (trimTail p.bytes).reverse
    let rest := (shown.dropWhile (· != slash)).reverse
    some ⟨trimTail rest⟩

def isAbsolute (p : Path) : Bool := p.bytes.head? == some slash

/-- `q` seen from `p`: an absolute path stays as it is. -/
def join (p q : Path) : Path :=
  if q.isAbsolute then q
  else if p.bytes.isEmpty || p.bytes.getLast? == some slash then ⟨p.bytes ++ q.bytes⟩
  else ⟨p.bytes ++ slash :: q.bytes⟩

end Path

end FontCatalog
