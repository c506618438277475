import FontCatalog.Json.Lexer

/-! JSON text as a tree: arrays and objects may be nested 127 deep, and after the value only white
space may follow. -/
namespace FontCatalog.Json
set_option autoImplicit false

/-! ## Arrays and objects -/

/-- Where the next element of an array begins, none at its closing bracket. -/
def nextElement {ε : Type} (first : Bool) (bs : Bytes) : Except (Trouble ε) (Option Bytes) :=
  match skipSpace bs with
  | [] => early
  | b :: rest =>
    if b == byte ']' then .ok none
    else if first then .ok (some (b :: rest))
    else if b == byte ',' then
      match skipSpace rest with
      | [] => early
      | b :: rest => if b == byte ']' then malformed else .ok (some (b :: rest))
    else malformed

/-- The closing bracket of an array. -/
def closeList {ε : Type} (bs : Bytes) : Except (Trouble ε) Bytes :=
  match skipSpace bs with
  | [] => early
  | b :: rest => if b == byte ']' then .ok rest else malformed

/-- The elements of an array up to and with its closing bracket; `acc` holds those before, the last
one first. -/
def readItems {ε α : Type} (item : Reading ε α) : Nat → Bool → List α → Reading ε (List α)
  | 0, _, _, _ => early
  | fuel + 1, first, acc, bs =>
    match nextElement first bs with
    | .error e => .error e
    | .ok none =>
      match closeList bs with
      | .error e => .error e
      | .ok rest => .ok (acc.reverse, rest)
    | .ok (some rest) =>
      match item rest with
      | .error e => .error e
      | .ok (x, rest) => readItems item fuel false (x :: acc) rest

/-- Where the next name of an object begins, after its opening quote; none at the closing brace. -/
def nextName {ε : Type} (first : Bool) (bs : Bytes) : Except (Trouble ε) (Option Bytes) :=
  match skipSpace bs with
  | [] => early
  | b :: rest =>
    if b == byte '\x7d' then .ok none
    else if first then
      if b == byte '"' then .ok (some rest) else malformed
    else if b == byte ',' then
      match skipSpace rest with
      | [] => early
      | b :: rest => if b == byte '"' then .ok (some rest) else malformed
    else malformed

/-- The closing brace of an object. -/
def closeObject {ε : Type} (bs : Bytes) : Except (Trouble ε) Bytes :=
  match skipSpace bs with
  | [] => early
  | b :: rest => if b == byte '\x7d' then .ok rest else malformed

def readColon {ε : Type} (bs : Bytes) : Except (Trouble ε) Bytes :=
  match skipSpace bs with
  | [] => early
  | b :: rest => if b == byte ':' then .ok rest else malformed

/-- The members of an object up to and with its closing brace: `member` gets the state and the name
and reads the rest of the member. -/
def readMembers {ε σ : Type} (length : Nat) (member : σ → String → Reading ε σ) :
    Nat → Bool → σ → Reading ε σ
  | 0, _, _, _ => early
  | fuel + 1, first, s, bs =>
    match nextName first bs with
    | .error e => .error e
    | .ok none =>
      match closeObject bs with
      | .error e => .error e
      | .ok rest => .ok (s, rest)
    | .ok (some rest) =>
      match readText length rest with
      | .error e => .error e
      | .ok (name, rest) =>
        match member s name rest with
        | .error e => .error e
        | .ok (s, rest) => readMembers length member fuel false s rest

/-! ## Values -/

/-- A value of at most `depth` levels; `length` is at least the number of bytes. -/
def readValue {ε : Type} (length : Nat) (depth : Nat) : Reading ε Json := fun bs =>
  match skipSpace bs with
  | [] => early
  | b :: rest =>
    if b == byte 'n' then
      match expect ['u', 'l', 'l'] rest with
      | .error e => .error e
      | .ok rest => .ok (.null, rest)
    else if b == byte 't' then
      match expect ['r', 'u', 'e'] rest with
      | .error e => .error e
      | .ok rest => .ok (.bool true, rest)
    else if b == byte 'f' then
      match expect ['a', 'l', 's', 'e'] rest with
      | .error e => .error e
      | .ok rest => .ok (.bool false, rest)
    else if b == byte '-' then
      match readNumber true rest with
      | .error e => .error e
      | .ok (n, rest) => .ok (.number n, rest)
    else if isDigit b then
      match readNumber false (b :: rest) with
      | .error e => .error e
      | .ok (n, rest) => .ok (.number n, rest)
    else if b == byte '"' then
      match readText length rest with
      | .error e => .error e
      | .ok (s, rest) => .ok (.text s, rest)
    else if b == byte '[' then
      match depth with
      | 0 => malformed
      | depth + 1 =>
        match readItems (readValue length depth) (length + 1) true [] rest with
        | .error e => .error e
        | .ok (items, rest) => .ok (.list items, rest)
    else if b == byte '\x7b' then
      match depth with
      | 0 => malformed
      | depth + 1 =>
        let member (acc : List (String × Json)) (name : String) : Reading ε _ := fun bs =>
          match readColon bs with
          | .error e => .error e
          | .ok rest =>
            match readValue length depth rest with
            | .error e => .error e
            | .ok (v, rest) => .ok ((name, v) :: acc, rest)
        match readMembers length member (length + 1) true [] rest with
        | .error e => .error e
        | .ok (members, rest) => .ok (.object members.reverse, rest)
    else malformed

/-- How deep arrays and objects may be nested. -/
def maxDepth : Nat := 127

/-- Only white space may be left. -/
def finish {ε α : Type} : Except (Trouble ε) (α × Bytes) → Except (Trouble ε) α
  | .error e => .error e
  | .ok (v, rest) =>
    match skipSpace rest with
    | [] => .ok v
    | _ :: _ => malformed

/-- The tree of a whole text, members in the order of the text. -/
def parse (bs : Bytes) : Except Fault Json :=
  match finish (ε := Empty) (readValue bs.length maxDepth bs) with
  | .ok v => .ok v
  | .error (.text f) => .error f

/-- The tree of a whole text with sorted members, of each name the last. -/
def parseKeyed (bs : Bytes) : Except Fault Json := (parse bs).map keyed

end FontCatalog.Json
