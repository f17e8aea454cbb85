/-
The text of a binary number: its shortest digits, laid out with a point or with
an exponent. A layout says which, and what else the texts of a format differ in.
-/
import ResourceSql.Number.Shortest

namespace ResourceSql

/-- How numbers are written: which way ties between digits go, whether a whole number keeps
`.0`, and which decimal exponents are written without an exponent part. -/
structure NumberLayout where
  tie : Tie
  keepPoint : Bool
  positional : Int → Bool

namespace NumberLayout

/-- For people: every number is written in full, and a whole one without a point. -/
def plain : NumberLayout := ⟨.up, false, fun _ => true⟩

/-- For documents: whole numbers end in `.0`; from `10 ^ 16` on and below `10 ^ -5` the power of
ten is split off. -/
def document : NumberLayout := ⟨.even, true, fun exponent => -5 ≤ exponent ∧ exponent < 16⟩

/-- The same for numbers of single precision, from `10 ^ 13` on and below `10 ^ -6`. -/
def singleDocument : NumberLayout := ⟨.even, true, fun exponent => -6 ≤ exponent ∧ exponent < 13⟩

/-- Digits with the point after the first `point` of them, filled up with zeros on either side. -/
def withPoint (layout : NumberLayout) (digits : List Char) (point : Int) : List Char :=
  if point ≤ 0 then '0' :: '.' :: (List.replicate (-point).toNat '0' ++ digits)
  else if point < digits.length then digits.take point.toNat ++ '.' :: digits.drop point.toNat
  else digits ++ List.replicate (point.toNat - digits.length) '0' ++
    if layout.keepPoint then ['.', '0'] else []

/-- Digits with the point after the first of them, and the power of ten with its sign. -/
def withExponent (digits : List Char) (exponent : Int) : List Char :=
  let mantissa := match digits with
    | first :: second :: rest => first :: '.' :: second :: rest
    | digits => digits
  mantissa ++ 'e' :: (if exponent < 0 then '-' else '+') :: Digits.ofNat exponent.natAbs

def positive (layout : NumberLayout) (s : Scientific) : List Char :=
  let digits := Digits.ofNat s.coefficient
  let point : Int := digits.length + s.exponent
  if layout.positional (point - 1) then layout.withPoint digits point
  else withExponent digits (point - 1)

/-- A number of either sign. Zero keeps its sign. -/
def write {format : BinaryFormat} (layout : NumberLayout) : Binary format → List Char
  | .infinite negative => (if negative then ['-'] else []) ++ ['i', 'n', 'f']
  | .finite negative significand exponent =>
    (if negative then ['-'] else []) ++
      if significand = 0 then layout.withPoint ['0'] 1
      else layout.positive (shortestDigits format layout.tie significand exponent)

end NumberLayout

end ResourceSql
