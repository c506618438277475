/-! Non-negative doubles in exact arithmetic: rounding of quotients to the nearest double, products
and quotients of doubles, their bits, and the shortest decimal that reads back. -/
namespace FontCatalog
set_option autoImplicit false

/-- The double `significand · 2^power / 2^1074`; `significand` is below 2^53, and at least 2^52 unless
`power` is 0. -/
structure Binary64 where
  significand : Nat
  power : Nat
  deriving DecidableEq, Repr

namespace Binary64

def zero : Binary64 := ⟨0, 0⟩

/-- How many of the least positive doubles make one. -/
def unitScale : Nat := Nat.pow 2 1074

/-- The least significand of a double that is not among the smallest ones: 2^52. -/
def leadingBit : Nat := 0x10000000000000

/-! ## Rounding -/

/-- `num / den` to the nearest integer, a half to the even neighbour. -/
def roundEven (num den : Nat) : Nat :=
  let q := num / den
  let r := num % den
  if 2 * r > den || (2 * r == den && q % 2 == 1) then q + 1 else q

/-- The nearest double to `num / den`, a half to the even neighbour; none from 2^1024 upwards. -/
def ofRatio (num den : Nat) : Option Binary64 :=
  let scaled := num * unitScale
  let bits := Nat.log2 (scaled / den) + 1
  let power := bits - 53
  let s := roundEven scaled (den * Nat.pow 2 power)
  let d : Binary64 := if s == 2 * leadingBit then ⟨leadingBit, power + 1⟩ else ⟨s, power⟩
  if d.power > 2045 then none else some d

/-- The nearest double to `n`; every natural number that fits a word has one. -/
def ofNat (n : Nat) : Binary64 := (ofRatio n 1).getD zero

/-- The numerator over 2^1074. -/
def scaled (d : Binary64) : Nat := d.significand * Nat.pow 2 d.power

def isZero (d : Binary64) : Bool := d.significand == 0

def mul (a b : Binary64) : Option Binary64 := ofRatio (a.scaled * b.scaled) (unitScale * unitScale)

/-- The quotient; `b` is not zero. -/
def div (a b : Binary64) : Option Binary64 := ofRatio a.scaled b.scaled

def le (a b : Binary64) : Bool := a.scaled ≤ b.scaled

/-- The sixty-four bits of `d` with a clear sign. -/
def bits (d : Binary64) : Nat :=
  if d.significand < leadingBit then d.significand
  else (d.power + 1) * leadingBit + (d.significand - leadingBit)

/-! ## Shortest decimals -/

/-- Decimal digits `digits` with the first one at the place `10^exponent`. -/
structure Decimal where
  digits : Nat
  exponent : Int
  deriving DecidableEq, Repr

/-- How many decimal digits `n` has; none for zero. -/
def digitCount (n : Nat) : Nat := if n = 0 then 0 else (Nat.toDigits 10 n).length

/-- The place of the first digit of `num / den`, which is positive. -/
def leadingPlace (num den : Nat) : Int :=
  if den ≤ num then digitCount (num / den) - 1
  else
    let lift := digitCount (den / num)
    if den ≤ num * Nat.pow 10 (lift - 1) then - (lift - 1 : Nat)
    else - (lift : Nat)

/-- Four times the numerators, over 2^1074, between which a decimal reads back as `d`, and whether
the ends do so as well. -/
def interval (d : Binary64) : Nat × Nat × Bool :=
  let unit := Nat.pow 2 d.power
  let below := if d.significand == leadingBit && d.power > 0 then 1 else 2
  (4 * d.scaled - below * unit, 4 * d.scaled + 2 * unit, d.significand % 2 == 0)

/-- Of the two decimals with `count` digits next to `d`, the nearer one that reads back. -/
def nearest? (d : Binary64) (place : Int) (count : Nat) : Option Nat :=
  let den := 4 * unitScale
  let value := 4 * d.scaled
  let shift : Int := place - (count - 1 : Nat)
  let up := Nat.pow 10 shift.toNat
  let down := Nat.pow 10 (-shift).toNat
  let low := value * down / (den * up)
  let (lo, hi, ends) := d.interval
  let back (k : Nat) : Bool :=
    let x := k * up * den
    if ends then lo * down ≤ x && x ≤ hi * down else lo * down < x && x < hi * down
  let first := back low
  let second := back (low + 1)
  if first && second then
    let a := value * down - low * up * den
    let b := (low + 1) * up * den - value * down
    if a < b || (a == b && low % 2 == 0) then some low else some (low + 1)
  else if first then some low
  else if second then some (low + 1)
  else none

/-- The digits without the zeros at their end. -/
def dropZeros : Nat → Nat → Nat
  | 0, n => n
  | fuel + 1, n => if n != 0 && n % 10 == 0 then dropZeros fuel (n / 10) else n

/-- The first hit among decimals of `count`, `count + 1`, … digits. -/
def shortestFrom (d : Binary64) (place : Int) : Nat → Nat → Decimal
  | 0, _ => ⟨0, 0⟩
  | fuel + 1, count =>
    match d.nearest? place count with
    | some k =>
      let exponent := place + (digitCount k - count : Nat)
      ⟨dropZeros 20 k, exponent⟩
    | none => shortestFrom d place fuel (count + 1)

/-- The decimal with the fewest digits that reads back as `d`, the nearest one of these. -/
def shortest (d : Binary64) : Decimal :=
  if d.isZero then ⟨0, 0⟩ else d.shortestFrom (leadingPlace d.scaled unitScale) 18 1

end Binary64

end FontCatalog
