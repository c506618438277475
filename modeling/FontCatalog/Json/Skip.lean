import FontCatalog.Json.Reader

/-! Passing over a value that nobody asked for. Its form is checked, however deep it is nested, but
not what its strings and numbers stand for. -/
namespace FontCatalog.Json
set_option autoImplicit false

/-! ## Scalars -/

/-- Passes over an escape after its backslash. -/
def skipEscape {ε : Type} : Bytes → Except (Trouble ε) Bytes
  | [] => early
  | b :: rest =>
    if (simpleEscape? b).isSome then .ok rest
    else if b != byte 'u' then malformed
    else
      match readHex rest with
      | .error e => .error e
      | .ok (_, rest) => .ok rest

/-- Passes over a string after its opening quote. -/
def skipText {ε : Type} : Nat → Bytes → Except (Trouble ε) Bytes
  | 0, _ => early
  | _ + 1, [] => early
  | fuel + 1, b :: rest =>
    if b == byte '"' then .ok rest
    else if b == byte '\\' then
      match skipEscape rest with
      | .error e => .error e
      | .ok rest => skipText fuel rest
    else if b < 0x20 then malformed
    else skipText fuel rest

/-- Passes over digits, at least one; without any the number is malformed, even at the end. -/
def skipDigits {ε : Type} (bs : Bytes) : Except (Trouble ε) Bytes :=
  if startsDigit bs then .ok (dropDigits 0 bs).2 else malformed

def skipExponent {ε : Type} : Bytes → Except (Trouble ε) Bytes
  | [] => .ok []
  | b :: rest => if isExponentLetter b then skipDigits (exponentSign rest).2 else .ok (b :: rest)

def skipFraction {ε : Type} : Bytes → Except (Trouble ε) Bytes
  | [] => .ok []
  | b :: rest =>
    if b == byte '.' then
      match skipDigits rest with
      | .error e => .error e
      | .ok rest => skipExponent rest
    else skipExponent (b :: rest)

/-- Passes over a number after its sign. -/
def skipNumber {ε : Type} : Bytes → Except (Trouble ε) Bytes
  | [] => malformed
  | b :: rest =>
    if b == byte '0' then
      if startsDigit rest then malformed else skipFraction rest
    else if isDigit b then skipFraction (dropDigits 0 rest).2
    else malformed

/-! ## Nesting -/

/-- What encloses the place that has been reached. -/
inductive Frame where
  | list
  | object
  deriving DecidableEq, Repr

def Frame.closing : Frame → UInt8
  | .list => byte ']'
  | .object => byte '\x7d'

/-- What is expected next. -/
inductive Expecting where
  /-- a value -/
  | value
  /-- a value, or the end of the list that has just begun -/
  | first
  /-- a name after its opening quote, and its value -/
  | name
  /-- what follows a value -/
  | next
  deriving DecidableEq, Repr

/-- Passes over values until no frame is open. -/
def skipWithin {ε : Type} : Nat → Expecting → List Frame → Bytes → Except (Trouble ε) Bytes
  | 0, _, _, _ => early
  | _ + 1, .next, [], bs => .ok bs
  | fuel + 1, .next, f :: frames, bs =>
    match skipSpace bs with
    | [] => early
    | b :: rest =>
      if b == f.closing then skipWithin fuel .next frames rest
      else if b != byte ',' then malformed
      else
        match f with
        | .list => skipWithin fuel .value (f :: frames) rest
        | .object =>
          match skipSpace rest with
          | [] => early
          | b :: rest =>
            if b == byte '"' then skipWithin fuel .name (f :: frames) rest else malformed
  | fuel + 1, .name, frames, bs =>
    match skipText (fuel + 1) bs with
    | .error e => .error e
    | .ok rest =>
      match readColon rest with
      | .error e => .error e
      | .ok rest => skipWithin fuel .value frames rest
  | fuel + 1, .first, frames, bs =>
    match skipSpace bs with
    | [] => early
    | b :: rest =>
      if b == byte ']' then skipWithin fuel .next (frames.drop 1) rest
      else skipWithin fuel .value frames (b :: rest)
  | fuel + 1, .value, frames, bs =>
    let after (r : Except (Trouble ε) Bytes) : Except (Trouble ε) Bytes :=
      match r with
      | .error e => .error e
      | .ok rest => skipWithin fuel .next frames rest
    match skipSpace bs with
    | [] => early
    | b :: rest =>
      if b == byte 'n' then after (expect ['u', 'l', 'l'] rest)
      else if b == byte 't' then after (expect ['r', 'u', 'e'] rest)
      else if b == byte 'f' then after (expect ['a', 'l', 's', 'e'] rest)
      else if b == byte '-' then after (skipNumber rest)
      else if isDigit b then after (skipNumber (b :: rest))
      else if b == byte '"' then after (skipText (fuel + 1) rest)
      else if b == byte '[' then skipWithin fuel .first (.list :: frames) rest
      else if b == byte '\x7b' then
        match skipSpace rest with
        | [] => early
        | b :: rest =>
          if b == byte '\x7d' then skipWithin fuel .next frames rest
          else if b == byte '"' then skipWithin fuel .name (.object :: frames) rest
          else malformed
      else malformed

/-- Passes over one value; `length` is at least the number of bytes. -/
def skipValue {ε : Type} (length : Nat) (bs : Bytes) : Except (Trouble ε) Bytes :=
  skipWithin (2 * length + 2) .value [] bs

end FontCatalog.Json
