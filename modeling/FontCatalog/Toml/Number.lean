import FontCatalog.Toml.Lexer

/-! Numbers, dates and times of TOML. -/
namespace FontCatalog.Toml
set_option autoImplicit false

/-! ## Digits -/

def digitValue (c : Char) : Nat := (hexValue? c).getD 0

def isDigit (c : Char) : Bool := '0' ≤ c && c ≤ '9'

def isOctal (c : Char) : Bool := '0' ≤ c && c ≤ '7'

def isBinary (c : Char) : Bool := c == '0' || c == '1'

def isHex (c : Char) : Bool := (hexValue? c).isSome

/-- The digits after one that has been read; an underscore stands between two digits. -/
def moreDigits (accepts : Char → Bool) : Reading (List Char)
  | [] => some ([], [])
  | '_' :: c :: rest =>
    if accepts c then (moreDigits accepts rest).map fun (ds, rest) => (c :: ds, rest) else none
  | '_' :: [] => none
  | c :: rest =>
    if accepts c then (moreDigits accepts rest).map fun (ds, rest) => (c :: ds, rest)
    else some ([], c :: rest)

/-- One digit or more. -/
def readDigits (accepts : Char → Bool) : Reading (List Char)
  | [] => none
  | c :: rest =>
    if accepts c then (moreDigits accepts rest).map fun (ds, rest) => (c :: ds, rest) else none

def valueOf (base : Nat) (digits : List Char) : Nat :=
  digits.foldl (fun n c => n * base + digitValue c) 0

/-! ## Integers and reals -/

def readSign : List Char → Option Bool × List Char
  | '+' :: rest => (some false, rest)
  | '-' :: rest => (some true, rest)
  | cs => (none, cs)

/-- The digits before the point; a zero in front stands alone. -/
def readWhole : Reading (List Char)
  | '0' :: rest => some (['0'], rest)
  | cs => readDigits isDigit cs

/-- The fraction, empty if there is no point. -/
def readFraction : Reading (List Char)
  | '.' :: rest => readDigits isDigit rest
  | cs => some ([], cs)

/-- The power of ten, none if no exponent is written. -/
def readExponent : Reading (Option Int)
  | c :: rest =>
    if c == 'e' || c == 'E' then
      let (sign, rest) := readSign rest
      match readDigits isDigit rest with
      | none => none
      | some (ds, rest) =>
        let n : Int := valueOf 10 ds
        some (some (if sign == some true then -n else n), rest)
    else some (none, c :: rest)
  | [] => some (none, [])

/-- The double nearest to `digits · 10^power`, none if it is too large. -/
def nearest (digits : Nat) (power : Int) : Option Binary64 :=
  if digits = 0 then some .zero
  else if (Nat.toDigits 10 digits).length + power > 400 then none
  else if (Nat.toDigits 10 digits).length + power < -400 then some .zero
  else if 0 ≤ power then Binary64.ofRatio (digits * Nat.pow 10 power.toNat) 1
  else Binary64.ofRatio digits (Nat.pow 10 (-power).toNat)

/-- A real number as it is written; a positive one must not be too large. -/
def realOf (negative : Bool) (whole fraction : List Char) (exponent : Int) : Option Real :=
  match nearest (valueOf 10 (whole ++ fraction)) (exponent - fraction.length) with
  | some m => some (.finite negative m)
  | none => if negative then some (.infinite true) else none

def integerOf (i : Int) : Option Value :=
  if minInteger ≤ i ∧ i ≤ maxInteger then some (.integer i) else none

/-- An integer to another base, after its mark. -/
def readBased (base : Nat) (accepts : Char → Bool) : Reading Value := fun cs =>
  match readDigits accepts cs with
  | none => none
  | some (ds, rest) => (integerOf (valueOf base ds)).map (·, rest)

/-- A decimal number after its sign. -/
def readDecimal (negative : Bool) : Reading Value := fun cs =>
  match readWhole cs with
  | none => none
  | some (whole, rest) =>
    match readFraction rest with
    | none => none
    | some (fraction, rest) =>
      match readExponent rest with
      | none => none
      | some (exponent, rest) =>
        if fraction = [] ∧ exponent = none then
          let n : Int := valueOf 10 whole
          (integerOf (if negative then -n else n)).map (·, rest)
        else (realOf negative whole fraction (exponent.getD 0)).map fun r => (.real r, rest)

/-- A number that is no date or time. -/
def readNumber : Reading Value
  | '0' :: 'x' :: rest => readBased 16 isHex rest
  | '0' :: 'o' :: rest => readBased 8 isOctal rest
  | '0' :: 'b' :: rest => readBased 2 isBinary rest
  | cs =>
    let (sign, rest) := readSign cs
    let negative := sign == some true
    match rest with
    | 'i' :: 'n' :: 'f' :: rest => some (.real (.infinite negative), rest)
    | 'n' :: 'a' :: 'n' :: rest => some (.real (.notANumber negative), rest)
    | rest => readDecimal negative rest

/-! ## Dates and times -/

/-- Exactly `n` digits as a number. -/
def readFixed (n : Nat) : Reading Nat := fun cs =>
  let ds := cs.take n
  if ds.length = n ∧ ds.all isDigit then some (valueOf 10 ds, cs.drop n) else none

/-- Two digits for a number from `low` to `high`. -/
def readTwo (low high : Nat) : Reading Nat := fun cs =>
  match readFixed 2 cs with
  | some (n, rest) => if low ≤ n ∧ n ≤ high then some (n, rest) else none
  | none => none

def isLeapYear (year : Nat) : Bool := year % 4 == 0 && (year % 100 != 0 || year % 400 == 0)

def daysIn (year month : Nat) : Nat :=
  if month = 2 then if isLeapYear year then 29 else 28
  else if month = 4 ∨ month = 6 ∨ month = 9 ∨ month = 11 then 30
  else 31

/-- Month and day after the year and its dash. -/
def readMonthDay (year : Nat) : Reading Date := fun cs =>
  match readTwo 1 12 cs with
  | some (month, '-' :: rest) =>
    match readTwo 1 (daysIn year month) rest with
    | some (day, rest) => some (⟨year, month, day⟩, rest)
    | none => none
  | _ => none

/-- The first nine digits of a fraction of a second. -/
def nanosOf (digits : List Char) : Nat :=
  let ds := digits.take 9
  valueOf 10 ds * Nat.pow 10 (9 - ds.length)

/-- Minute, second and fraction after the hour and its colon. -/
def readMinuteSecond (hour : Nat) : Reading Time := fun cs =>
  match readTwo 0 59 cs with
  | some (minute, ':' :: rest) =>
    match readTwo 0 60 rest with
    | some (second, '.' :: rest) =>
      let ds := rest.takeWhile isDigit
      if ds = [] then some (⟨hour, minute, second, 0⟩, '.' :: rest)
      else some (⟨hour, minute, second, nanosOf ds⟩, rest.dropWhile isDigit)
    | some (second, rest) => some (⟨hour, minute, second, 0⟩, rest)
    | none => none
  | _ => none

/-- The offset from universal time in minutes. -/
def readOffset : Reading (Option Int)
  | 'Z' :: rest => some (some 0, rest)
  | 'z' :: rest => some (some 0, rest)
  | '+' :: rest => readShift false rest
  | '-' :: rest => readShift true rest
  | cs => some (none, cs)
where
  readShift (negative : Bool) : Reading (Option Int) := fun cs =>
    match readTwo 0 23 cs with
    | some (hour, ':' :: rest) =>
      match readTwo 0 59 rest with
      | some (minute, rest) =>
        let m : Int := hour * 60 + minute
        some (some (if negative then -m else m), rest)
      | none => none
    | _ => none

/-- Whether a time begins here. -/
def beginsTime (cs : List Char) : Bool :=
  match readTwo 0 23 cs with
  | some (_, ':' :: _) => true
  | _ => false

def readTime : Reading Time := fun cs =>
  match readTwo 0 23 cs with
  | some (hour, ':' :: rest) => readMinuteSecond hour rest
  | _ => none

/-- What may follow a date: a mark, a time and an offset. -/
def readDayTime (date : Date) : Reading Moment
  | c :: rest =>
    if (c == 'T' || c == 't' || c == ' ') && beginsTime rest then
      match readTime rest with
      | none => none
      | some (time, rest) =>
        match readOffset rest with
        | none => none
        | some (offset, rest) => some (⟨some date, some time, offset⟩, rest)
    else some (⟨some date, none, none⟩, c :: rest)
  | [] => some (⟨some date, none, none⟩, [])

/-- A number, a date or a time, whichever begins here. -/
def readFigure : Reading Value := fun cs =>
  match readFixed 4 cs with
  | some (year, '-' :: rest) =>
    match readMonthDay year rest with
    | none => none
    | some (date, rest) => (readDayTime date rest).map fun (m, rest) => (.moment m, rest)
  | _ =>
    if beginsTime cs then
      (readTime cs).map fun (t, rest) => (.moment ⟨none, some t, none⟩, rest)
    else readNumber cs

end FontCatalog.Toml
