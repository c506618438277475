import FontCatalog.Toml.Entries
import FontCatalog.Toml.Number

/-! TOML text as a table: values, pairs of keys and values, and sections under headers. -/
namespace FontCatalog.Toml
set_option autoImplicit false

/-! ## Values -/

/-- The elements of an array up to its closing bracket; `acc` holds those before, the last one
first. -/
def readItems (length : Nat) (item : Reading Value) : Nat → List Value → Reading (List Value)
  | 0, _, _ => none
  | fuel + 1, acc, cs =>
    match skipLines length cs with
    | ']' :: rest => some (acc.reverse, rest)
    | cs =>
      match item cs with
      | none => none
      | some (v, rest) =>
        match skipLines length rest with
        | ',' :: rest => readItems length item fuel (v :: acc) rest
        | ']' :: rest => some ((v :: acc).reverse, rest)
        | _ => none

/-- A key, an equals sign and a value, with the blanks around them. -/
def readPair (value : Reading Value) : Reading (List String × Value) := fun cs =>
  match readKey cs with
  | some (key, '=' :: rest) =>
    match value (skipBlanks rest) with
    | some (v, rest) => some ((key, v), skipBlanks rest)
    | none => none
  | _ => none

/-- The pairs of an inline table up to its closing brace; there is no comma after the last one. -/
def readPairs (value : Reading Value) : Nat → List (List String × Value) →
    Reading (List (List String × Value))
  | 0, _, _ => none
  | fuel + 1, acc, cs =>
    match readPair value cs with
    | some (p, ',' :: rest) => readPairs value fuel (p :: acc) rest
    | some (p, '\x7d' :: rest) => some ((p :: acc).reverse, rest)
    | _ => none

def readInlineTable (value : Reading Value) (fuel : Nat) : Reading Value := fun cs =>
  match skipBlanks cs with
  | '\x7d' :: rest => some (.table [], rest)
  | cs =>
    match readPairs value fuel [] cs with
    | none => none
    | some (pairs, rest) => (tableOf pairs).map (·, rest)

/-- A value with at most `depth` levels of arrays and inline tables; `length` is at least the number of
characters. -/
def readValue (length : Nat) : Nat → Reading Value
  | depth, '[' :: rest =>
    match depth with
    | 0 => none
    | depth + 1 =>
      (readItems length (readValue length depth) (length + 1) [] rest).map fun (vs, rest) =>
        (.array vs, rest)
  | depth, '\x7b' :: rest =>
    match depth with
    | 0 => none
    | depth + 1 => readInlineTable (readValue length depth) (length + 1) rest
  | _, 't' :: 'r' :: 'u' :: 'e' :: rest => some (.boolean true, rest)
  | _, 'f' :: 'a' :: 'l' :: 's' :: 'e' :: rest => some (.boolean false, rest)
  | _, '"' :: rest => (readString ('"' :: rest)).map fun (s, rest) => (.text s, rest)
  | _, '\'' :: rest => (readString ('\'' :: rest)).map fun (s, rest) => (.text s, rest)
  | _, cs => readFigure cs

/-! ## Sections -/

inductive Header where
  /-- `[key]`, a table -/
  | table (key : List String)
  /-- `[[key]]`, one more table of an array -/
  | element (key : List String)
  deriving DecidableEq, Repr

def readHeader : Reading Header
  | '[' :: '[' :: rest =>
    match readKey rest with
    | some (key, ']' :: ']' :: rest) => (endLine rest).map (.element key, ·)
    | _ => none
  | '[' :: rest =>
    match readKey rest with
    | some (key, ']' :: rest) => (endLine rest).map (.table key, ·)
    | _ => none
  | _ => none

structure Section where
  header : Option Header
  pairs : List (List String × Value)

/-- The sections of a text, and in front the pairs before the first header of it. -/
def readSections (length : Nat) : Nat → List Char →
    Option (List (List String × Value) × List Section)
  | 0, _ => none
  | fuel + 1, cs =>
    match skipLines length cs with
    | [] => some ([], [])
    | '#' :: rest => if (skipComment ('#' :: rest)).isEmpty then some ([], []) else none
    | '[' :: rest =>
      match readHeader ('[' :: rest) with
      | none => none
      | some (header, rest) =>
        match readSections length fuel rest with
        | none => none
        | some (pairs, sections) => some ([], ⟨some header, pairs⟩ :: sections)
    | cs =>
      match readPair (readValue length maxDepth) cs with
      | none => none
      | some (p, rest) =>
        match endLine rest with
        | none => none
        | some rest =>
          match readSections length fuel rest with
          | none => none
          | some (pairs, sections) => some (p :: pairs, sections)

/-! ## Documents -/

/-- Adds a section to what has been read before it. -/
def addSection (s : Section) (root : Entries) : Option Entries :=
  match s.header with
  | none => addValues s.pairs root
  | some (.table key) =>
    match key.getLast? with
    | none => none
    | some name =>
      let change (_ : TableKind) (es : Entries) : Option Entries :=
        match lookup name es with
        | none => (addValues s.pairs []).map fun sub => es ++ [(name, .table .headed sub)]
        | some (.table .implied sub) =>
          (addValues s.pairs sub).map fun sub => replace name (.table .headed sub) es
        | some _ => none
      within .implied change key.dropLast .headed root
  | some (.element key) =>
    match key.getLast? with
    | none => none
    | some name =>
      let change (_ : TableKind) (es : Entries) : Option Entries :=
        match lookup name es with
        | none => (addValues s.pairs []).map fun sub => es ++ [(name, .tables [sub])]
        | some (.tables all) =>
          (addValues s.pairs []).map fun sub => replace name (.tables (all ++ [sub])) es
        | some _ => none
      within .implied change key.dropLast .headed root

def addSections : List Section → Entries → Option Entries
  | [], es => some es
  | s :: rest, es =>
    match addSection s es with
    | none => none
    | some es => addSections rest es

/-- A mark of the byte order in front does not count. -/
def dropMark : List Char → List Char
  | '\ufeff' :: rest => rest
  | cs => cs

/-- The table that a text describes, none if the text is not TOML. -/
def parse (text : String) : Option Value :=
  let cs := dropMark text.toList
  match readSections cs.length (cs.length + 1) cs with
  | none => none
  | some (pairs, sections) =>
    (addSections (⟨none, pairs⟩ :: sections) []).map fun es => .table (entryValues es)

end FontCatalog.Toml
