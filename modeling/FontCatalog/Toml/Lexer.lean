import FontCatalog.Toml.Basic

/-! Blanks, comments, line ends, strings and keys of TOML. A reader takes what it needs from the front
and returns the rest, or nothing if that is not there. -/
namespace FontCatalog.Toml
set_option autoImplicit false

abbrev Reading (α : Type) := List Char → Option (α × List Char)

/-! ## Blanks and lines -/

def isBlank (c : Char) : Bool := c == ' ' || c == '\t'

def skipBlanks (cs : List Char) : List Char := cs.dropWhile isBlank

/-- The rest after a line end, if there is one. -/
def afterNewline? : List Char → Option (List Char)
  | '\n' :: rest => some rest
  | '\r' :: '\n' :: rest => some rest
  | _ => none

/-- Whether a character is no control character, the tab apart. -/
def isShown (c : Char) : Bool := c == '\t' || (0x20 ≤ c.toNat && c.toNat != 0x7F)

def skipComment : List Char → List Char
  | '#' :: rest => rest.dropWhile isShown
  | cs => cs

/-- Blanks, a comment, and the end of the line or of the text. -/
def endLine (cs : List Char) : Option (List Char) :=
  match skipComment (skipBlanks cs) with
  | [] => some []
  | rest => afterNewline? rest

/-- Blanks, comments and line ends, up to so many lines. -/
def skipLines : Nat → List Char → List Char
  | 0, cs => cs
  | fuel + 1, cs =>
    match afterNewline? (skipComment (skipBlanks cs)) with
    | some rest => skipLines fuel rest
    | none => skipBlanks cs

/-! ## Escapes -/

def hexValue? (c : Char) : Option Nat :=
  if '0' ≤ c ∧ c ≤ '9' then some (c.toNat - 48)
  else if 'a' ≤ c ∧ c ≤ 'f' then some (c.toNat - 87)
  else if 'A' ≤ c ∧ c ≤ 'F' then some (c.toNat - 55)
  else none

/-- The character whose number these digits write to base sixteen. -/
def charOfHex? (digits : List Char) : Option Char :=
  match digits.mapM hexValue? with
  | none => none
  | some ds =>
    let n := ds.foldl (fun n d => n * 16 + d) 0
    if n < 0xD800 ∨ (0xDFFF < n ∧ n < 0x110000) then some (Char.ofNat n) else none

def simpleEscape? : Char → Option Char
  | 'b' => some '\x08'
  | 't' => some '\t'
  | 'n' => some '\n'
  | 'f' => some '\x0c'
  | 'r' => some '\r'
  | '"' => some '"'
  | '\\' => some '\\'
  | _ => none

/-! ## Strings -/

/-- The rest of a string in double quotes on one line. -/
def readBasic (acc : List Char) : Reading String
  | '"' :: rest => some (String.ofList acc.reverse, rest)
  | '\\' :: 'u' :: a :: b :: c :: d :: rest =>
    (charOfHex? [a, b, c, d]).bind fun x => readBasic (x :: acc) rest
  | '\\' :: 'U' :: a :: b :: c :: d :: e :: f :: g :: h :: rest =>
    (charOfHex? [a, b, c, d, e, f, g, h]).bind fun x => readBasic (x :: acc) rest
  | '\\' :: c :: rest => (simpleEscape? c).bind fun x => readBasic (x :: acc) rest
  | c :: rest => if isShown c then readBasic (c :: acc) rest else none
  | [] => none

/-- The rest of a string in single quotes on one line. -/
def readLiteral (acc : List Char) : Reading String
  | '\'' :: rest => some (String.ofList acc.reverse, rest)
  | c :: rest => if isShown c then readLiteral (c :: acc) rest else none
  | [] => none

/-- The end of a string in three quotes, after these: up to two more belong to the string. -/
def closeBlock (quote : Char) (acc : List Char) (cs : List Char) : String × List Char :=
  let extra := (cs.takeWhile (· == quote)).length
  let kept := min extra 2
  (String.ofList (List.replicate kept quote ++ acc).reverse, cs.drop kept)

/-- Whether a backslash before `cs` leaves out the line end and the blanks after it. -/
def joinsLines (cs : List Char) : Bool := (afterNewline? (skipBlanks cs)).isSome

/-- The rest of a string in three double quotes; while `joining` is set blanks and line ends are left
out. -/
def readBasicBlock (joining : Bool) (acc : List Char) : Reading String
  | '"' :: '"' :: '"' :: rest => some (closeBlock '"' acc rest)
  | '\n' :: rest =>
    if joining then readBasicBlock true acc rest else readBasicBlock false ('\n' :: acc) rest
  | '\r' :: '\n' :: rest =>
    if joining then readBasicBlock true acc rest else readBasicBlock false ('\n' :: acc) rest
  | '\\' :: 'u' :: a :: b :: c :: d :: rest =>
    (charOfHex? [a, b, c, d]).bind fun x => readBasicBlock false (x :: acc) rest
  | '\\' :: 'U' :: a :: b :: c :: d :: e :: f :: g :: h :: rest =>
    (charOfHex? [a, b, c, d, e, f, g, h]).bind fun x => readBasicBlock false (x :: acc) rest
  | '\\' :: c :: rest =>
    if joinsLines (c :: rest) then readBasicBlock true acc (c :: rest)
    else (simpleEscape? c).bind fun x => readBasicBlock false (x :: acc) rest
  | c :: rest =>
    if joining && isBlank c then readBasicBlock true acc rest
    else if isShown c then readBasicBlock false (c :: acc) rest
    else none
  | [] => none

/-- The rest of a string in three single quotes. -/
def readLiteralBlock (acc : List Char) : Reading String
  | '\'' :: '\'' :: '\'' :: rest => some (closeBlock '\'' acc rest)
  | '\n' :: rest => readLiteralBlock ('\n' :: acc) rest
  | '\r' :: '\n' :: rest => readLiteralBlock ('\n' :: acc) rest
  | c :: rest => if isShown c then readLiteralBlock (c :: acc) rest else none
  | [] => none

/-- A line end right after the opening quotes is left out. -/
def dropNewline (cs : List Char) : List Char := (afterNewline? cs).getD cs

/-- A string of any of the four kinds. -/
def readString : Reading String
  | '"' :: '"' :: '"' :: rest => readBasicBlock false [] (dropNewline rest)
  | '"' :: rest => readBasic [] rest
  | '\'' :: '\'' :: '\'' :: rest => readLiteralBlock [] (dropNewline rest)
  | '\'' :: rest => readLiteral [] rest
  | _ => none

/-! ## Keys -/

/-- A character of a key without quotes. -/
def isBare (c : Char) : Bool := c.isAlphanum || c == '_' || c == '-'

def readKeyPart : Reading String
  | '"' :: rest => readBasic [] rest
  | '\'' :: rest => readLiteral [] rest
  | cs =>
    let name := cs.takeWhile isBare
    if name = [] then none else some (String.ofList name, cs.dropWhile isBare)

/-- The parts of a key, separated by dots, up to so many. -/
def readKeyParts : Nat → Reading (List String)
  | 0, _ => none
  | fuel + 1, cs =>
    match readKeyPart (skipBlanks cs) with
    | none => none
    | some (part, rest) =>
      match skipBlanks rest with
      | '.' :: rest => (readKeyParts fuel rest).map fun (parts, rest) => (part :: parts, rest)
      | rest => some ([part], rest)

/-- A key of one or more parts, and the blanks around it. -/
def readKey : Reading (List String) := readKeyParts maxKeyParts

end FontCatalog.Toml
