/-
Binary floating-point numbers as exact values. A finite number is a sign, a
significand and the exponent of its last place; every other number comes from
an exact fraction by rounding to the nearest number of the format, a tie to the
even significand. There is no undefined number, since no text denotes one.
-/
import ResourceSql.Number.Digits

namespace ResourceSql

/-- A format: significands of `precision` bits, and the exponents that the last place may have. -/
structure BinaryFormat where
  precision : Nat
  lowest : Int
  highest : Int
  deriving DecidableEq

namespace BinaryFormat

def single : BinaryFormat := ⟨24, -149, 104⟩

def double : BinaryFormat := ⟨53, -1074, 971⟩

end BinaryFormat

/-- The number `± significand * 2 ^ exponent`, or an infinity. In a finite number the
significand has the full precision, unless the exponent is the lowest one. -/
inductive Binary (format : BinaryFormat) where
  | finite (negative : Bool) (significand : Nat) (exponent : Int)
  | infinite (negative : Bool)
  deriving DecidableEq

abbrev Single := Binary .single

abbrev Double := Binary .double

namespace Binary

variable {format : BinaryFormat}

def isInfinite : Binary format → Bool
  | infinite _ => true
  | finite .. => false

def zero (negative : Bool) : Binary format := finite negative 0 format.lowest

/-- The integer nearest to a fraction, of two equally near ones the even one. -/
def nearestEven (numerator denominator : Nat) : Nat :=
  let whole := numerator / denominator
  let rest := numerator % denominator
  if denominator < 2 * rest ∨ (denominator = 2 * rest ∧ whole % 2 = 1) then whole + 1 else whole

/-- The greatest exponent whose power of two is not above a positive fraction. -/
def magnitude (numerator denominator : Nat) : Int :=
  let guess : Int := numerator.log2 - denominator.log2
  let above := numerator * Nat.pow 2 (-guess).toNat < denominator * Nat.pow 2 guess.toNat
  if above then guess - 1 else guess

/-- The number of the format nearest to a fraction with a positive denominator. -/
def ofFraction (negative : Bool) (numerator denominator : Nat) : Binary format :=
  if numerator = 0 then zero negative
  else
    let exponent := max (magnitude numerator denominator - (format.precision - 1)) format.lowest
    let significand :=
      nearestEven (numerator * Nat.pow 2 (-exponent).toNat) (denominator * Nat.pow 2 exponent.toNat)
    let (significand, exponent) :=
      if significand = Nat.pow 2 format.precision then (significand / 2, exponent + 1)
      else (significand, exponent)
    if format.highest < exponent then infinite negative
    else finite negative significand exponent

def ofInt (n : Int) : Binary format := ofFraction (n < 0) n.natAbs 1

/-- The number nearest to `± digits * 10 ^ exponent`. Exponents far outside the format are
settled by the number of digits alone. -/
def ofDecimal (negative : Bool) (digits : List Char) (exponent : Int) : Binary format :=
  let coefficient := Digits.toNat digits
  let places : Int := (Digits.ofNat coefficient).length + exponent
  if coefficient = 0 then zero negative
  else if format.highest + format.precision < places then infinite negative
  else if places < format.lowest then zero negative
  else ofFraction negative (coefficient * Nat.pow 10 exponent.toNat) (Nat.pow 10 (-exponent).toNat)

/-- The number of another format nearest to this one. -/
def convert {other : BinaryFormat} : Binary format → Binary other
  | infinite negative => infinite negative
  | finite negative significand exponent =>
    ofFraction negative (significand * Nat.pow 2 exponent.toNat) (Nat.pow 2 (-exponent).toNat)

end Binary

end ResourceSql
