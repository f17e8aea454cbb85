/-
The shortest decimal digits that read back as a given binary number. The reals
that round to a number form an interval, whose ends belong to it when the
significand is even. Of the decimal grids, from the coarsest on, the first one
with a point in the interval gives the digits: the nearer of the value's two
neighbours on the grid that lie in the interval, with a rule for a tie.
-/
import ResourceSql.Number.Binary

namespace ResourceSql

/-- Which of two equally near decimals is taken: the one with the even last digit, or the larger. -/
inductive Tie where
  | even
  | up
  deriving DecidableEq

/-- The positive decimal number `coefficient * 10 ^ exponent`. -/
structure Scientific where
  coefficient : Nat
  exponent : Int
  deriving DecidableEq

namespace Scientific

/-- The same number without zeros at the end of its digits. At most `fuel` are dropped. -/
def trim : Nat → Scientific → Scientific
  | 0, s => s
  | fuel + 1, s =>
    if s.coefficient ≠ 0 ∧ s.coefficient % 10 = 0 then
      trim fuel ⟨s.coefficient / 10, s.exponent + 1⟩
    else s

end Scientific

/-- A value between the ends of the interval of reals that round to it, all three over one
denominator. -/
structure RoundingInterval where
  low : Nat
  value : Nat
  high : Nat
  denominator : Nat
  closed : Bool

namespace RoundingInterval

/-- The reals that round to a positive number. Below a power of two the next number is half as
far away as above it. -/
def of (format : BinaryFormat) (significand : Nat) (exponent : Int) : RoundingInterval :=
  let narrow := significand = Nat.pow 2 (format.precision - 1) ∧ format.lowest < exponent
  let unit := Nat.pow 2 (exponent - 2).toNat
  { low := (4 * significand - if narrow then 1 else 2) * unit
    value := 4 * significand * unit
    high := (4 * significand + 2) * unit
    denominator := Nat.pow 2 (2 - exponent).toNat
    closed := significand % 2 = 0 }

/-- Whether the fraction lies in the interval. -/
def holds (i : RoundingInterval) (numerator denominator : Nat) : Bool :=
  let point := numerator * i.denominator
  let low := i.low * denominator
  let high := i.high * denominator
  if i.closed then low ≤ point ∧ point ≤ high else low < point ∧ point < high

/-- The point of the grid of multiples of `10 ^ exponent` that stands for the value: the nearer
of its two neighbours, if that lies in the interval. -/
def onGrid? (i : RoundingInterval) (tie : Tie) (exponent : Int) : Option Scientific :=
  let unit := Nat.pow 10 exponent.toNat
  let parts := Nat.pow 10 (-exponent).toNat
  let below := i.value * parts / (i.denominator * unit)
  let rest := i.value * parts % (i.denominator * unit)
  let above := below + 1
  let belowHeld := below ≠ 0 ∧ i.holds (below * unit) parts
  let aboveHeld := i.holds (above * unit) parts
  if belowHeld ∧ aboveHeld then
    let preferBelow :=
      2 * rest < i.denominator * unit ∨
        (2 * rest = i.denominator * unit ∧ tie = .even ∧ below % 2 = 0)
    some ⟨if preferBelow then below else above, exponent⟩
  else if belowHeld then some ⟨below, exponent⟩
  else if aboveHeld then some ⟨above, exponent⟩
  else none

/-- The first grid with a point, from `10 ^ exponent` on down over at most `fuel` grids. -/
def search (i : RoundingInterval) (tie : Tie) : Nat → Int → Option Scientific
  | 0, _ => none
  | fuel + 1, exponent =>
    match i.onGrid? tie exponent with
    | some s => some s
    | none => i.search tie fuel (exponent - 1)

end RoundingInterval

/-- The shortest digits for a positive number. The coarsest grid is that of the leading digit of
the whole part, or `10 ^ 0` for numbers below one. -/
def shortestDigits (format : BinaryFormat) (tie : Tie) (significand : Nat) (exponent : Int) :
    Scientific :=
  let interval := RoundingInterval.of format significand exponent
  let whole := interval.value / interval.denominator
  let top : Int := (Digits.ofNat whole).length
  let fuel := top.toNat + (-format.lowest).toNat + 1
  let found := (interval.search tie fuel top).getD ⟨significand, 0⟩
  found.trim (Digits.ofNat found.coefficient).length

end ResourceSql
