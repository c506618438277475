import FontCatalog.Toml.Basic

/-! Tables while they are built. A table is made by a header, by a dotted key, or by being on the way to
another; each of them may be added to in its own way only. -/
namespace FontCatalog.Toml
set_option autoImplicit false

inductive TableKind where
  /-- made by a header of its own -/
  | headed
  /-- made on the way to a table with a header -/
  | implied
  /-- made by a dotted key -/
  | dotted
  deriving DecidableEq, Repr

inductive Item where
  | value (v : Value)
  | table (kind : TableKind) (entries : List (String × Item))
  | tables (all : List (List (String × Item)))

abbrev Entries := List (String × Item)

mutual
/-- What is read from an item when the text has ended. -/
def Item.toValue : Item → Value
  | .value v => v
  | .table _ entries => .table (entryValues entries)
  | .tables all => .array (tableValues all)

def entryValues : List (String × Item) → List (String × Value)
  | [] => []
  | (k, i) :: rest => (k, i.toValue) :: entryValues rest

def tableValues : List (List (String × Item)) → List Value
  | [] => []
  | entries :: rest => .table (entryValues entries) :: tableValues rest
end

/-- Puts an item in the place of the entry with this name, or at the end. -/
def replace (name : String) (i : Item) : Entries → Entries
  | [] => [(name, i)]
  | (k, j) :: rest => if k = name then (name, i) :: rest else (k, j) :: replace name i rest

/-- Changes the table to which a key leads. Tables that are missing on the way are made, of the kind
`made`; of an array of tables the last one is meant. A dotted key does not pass through a table with a
header. -/
def within (made : TableKind) (change : TableKind → Entries → Option Entries) :
    List String → TableKind → Entries → Option Entries
  | [], kind, es => change kind es
  | name :: rest, _, es =>
    match lookup name es with
    | none => (within made change rest made []).map fun sub => es ++ [(name, .table made sub)]
    | some (.value _) => none
    | some (.table kind sub) =>
      if made = .dotted ∧ kind = .headed then none
      else (within made change rest kind sub).map fun sub => replace name (.table kind sub) es
    | some (.tables all) =>
      match all.getLast? with
      | none => none
      | some last =>
        (within made change rest .headed last).map fun last =>
          replace name (.tables (all.dropLast ++ [last])) es

/-- Adds a value under a key; the key must be new, and a dotted key must lead to a table made by dotted
keys. -/
def addValue (key : List String) (v : Value) (es : Entries) : Option Entries :=
  match key.getLast? with
  | none => none
  | some name =>
    let path := key.dropLast
    let change (kind : TableKind) (es : Entries) : Option Entries :=
      if path ≠ [] ∧ kind ≠ .dotted then none
      else if (lookup name es).isSome then none
      else some (es ++ [(name, .value v)])
    within .dotted change path .headed es

def addValues : List (List String × Value) → Entries → Option Entries
  | [], es => some es
  | (key, v) :: rest, es =>
    match addValue key v es with
    | none => none
    | some es => addValues rest es

/-- The table of an inline table with these pairs. -/
def tableOf (pairs : List (List String × Value)) : Option Value :=
  (addValues pairs []).map fun es => .table (entryValues es)

end FontCatalog.Toml
