import FontCatalog.Toml.Basic

/-! TOML text for people: strings in the plainest quotes that they allow, arrays of more than one
element with a line for each. -/
namespace FontCatalog.Toml
set_option autoImplicit false

/-! ## Strings -/

/-- The most `c` in a row; `run` of them stand in front. -/
def longestRun (c : Char) : Nat → List Char → Nat
  | run, [] => run
  | run, d :: rest => if d = c then longestRun c (run + 1) rest else max run (longestRun c 0 rest)

/-- Whether a character can only be written by an escape; a line end can stand in three quotes. -/
def isControl (c : Char) : Bool := (c.toNat < 0x20 && c != '\t' && c != '\n') || c.toNat == 0x7F

/-- The four kinds of quotes. -/
inductive Quotes where
  | basic
  | literal
  | basicBlock
  | literalBlock
  deriving DecidableEq, Repr

/-- The quotes that need no escape, the plainest first; if there are none, quotes with escapes. -/
def quotesFor (cs : List Char) : Quotes :=
  let controls := cs.any isControl
  let backslash := cs.contains '\\'
  let singles := longestRun '\'' 0 cs
  let doubles := longestRun '"' 0 cs
  let newline := cs.contains '\n'
  if !controls && !backslash && doubles == 0 && !newline then .basic
  else if !controls && singles == 0 && !newline then .literal
  else if !controls && !backslash && doubles ≤ 2 then .basicBlock
  else if !controls && singles ≤ 2 then .literalBlock
  else if newline then .basicBlock
  else .basic

/-- Four digits to base sixteen, upper case. -/
def hex4 (n : Nat) : List Char :=
  [n / 4096 % 16, n / 256 % 16, n / 16 % 16, n % 16].map fun d => (Nat.digitChar d).toUpper

/-- The escaped characters; `free` double quotes in a row stand as they are, and `run` stand in
front. -/
def escape (block : Bool) (free : Nat) : Nat → List Char → List Char
  | _, [] => []
  | run, c :: rest =>
    if c = '"' then
      if run < free then '"' :: escape block free (run + 1) rest
      else '\\' :: '"' :: escape block free 0 rest
    else
      let written :=
        if c = '\x08' then ['\\', 'b']
        else if c = '\t' then ['\\', 't']
        else if c = '\n' then if block then ['\n'] else ['\\', 'n']
        else if c = '\x0c' then ['\\', 'f']
        else if c = '\r' then ['\\', 'r']
        else if c = '\\' then ['\\', '\\']
        else if c.toNat < 0x20 ∨ c.toNat = 0x7F then '\\' :: 'u' :: hex4 c.toNat
        else [c]
      written ++ escape block free 0 rest

/-- A string between three quotes begins on a line of its own if it has line ends. -/
def blockStart (cs : List Char) : List Char := if cs.contains '\n' then ['\n'] else []

def writeText (s : String) : String :=
  let cs := s.toList
  match quotesFor cs with
  | .basic => "\"" ++ String.ofList (escape false 0 0 cs) ++ "\""
  | .literal => "'" ++ s ++ "'"
  | .basicBlock => "\"\"\"" ++ String.ofList (blockStart cs ++ escape true 2 0 cs) ++ "\"\"\""
  | .literalBlock => "'''" ++ String.ofList (blockStart cs) ++ s ++ "'''"

/-! ## Values of one line or more -/

def writeBoolean (b : Bool) : String := if b then "true" else "false"

/-- An array of strings. -/
def writeTexts : List String → String
  | [] => "[]"
  | [s] => "[" ++ writeText s ++ "]"
  | items => "[\n" ++ String.join (items.map fun s => "    " ++ writeText s ++ ",\n") ++ "]"

/-- A natural number, none if it is larger than an integer can be. -/
def writeNat? (n : Nat) : Option String := if (n : Int) ≤ maxInteger then some (toString n) else none

/-- A section: its header, and a line for each pair. -/
def writeSection (name : String) (pairs : List (String × String)) : String :=
  "[" ++ name ++ "]\n" ++ String.join (pairs.map fun (k, v) => k ++ " = " ++ v ++ "\n")

end FontCatalog.Toml
