/-
Decimal numbers of limited size: a coefficient of 96 bits and at most 28 places
after the point. The number of places is part of a decimal, so `12.50` and
`12.5` are different decimals; zero has no sign.
-/
import ResourceSql.Number.Digits

namespace ResourceSql

/-- The number `± coefficient / 10 ^ scale`. -/
structure Decimal where
  negative : Bool
  coefficient : Nat
  scale : Nat
  coefficient_lt : coefficient < Nat.pow 2 96
  scale_le : scale ≤ 28
  deriving DecidableEq

namespace Decimal

/-- The greatest number of places after the point. -/
def maxScale : Nat := 28

def ofParts? (negative : Bool) (coefficient scale : Nat) : Option Decimal :=
  if h : coefficient < Nat.pow 2 96 ∧ scale ≤ 28 then
    some ⟨negative && coefficient != 0, coefficient, scale, h.1, h.2⟩
  else none

/-- Every place is written, with at least one digit before the point. -/
def toChars (d : Decimal) : List Char :=
  let digits := Digits.ofNat d.coefficient
  let padded := List.replicate (d.scale + 1 - digits.length) '0' ++ digits
  let whole := padded.take (padded.length - d.scale)
  (if d.negative then ['-'] else []) ++
    if d.scale = 0 then whole else whole ++ '.' :: padded.drop (padded.length - d.scale)

def toString (d : Decimal) : String := String.ofList d.toChars

/-! ## Reading -/

/-- What has been read of a number. -/
structure Reading where
  coefficient : Nat := 0
  scale : Nat := 0
  /-- Whether the point was met. -/
  pointed : Bool := false
  /-- Whether a digit was met. -/
  started : Bool := false

namespace Reading

/-- Rounds at a digit for which there is no room, a five upwards. If that leaves no room for the
coefficient, its last place is rounded away as well. -/
def round? (negative : Bool) (r : Reading) (digit : Nat) : Option Decimal :=
  if digit < 5 then ofParts? negative r.coefficient r.scale
  else if r.coefficient + 1 < Nat.pow 2 96 then ofParts? negative (r.coefficient + 1) r.scale
  else if r.scale = 0 then none
  else ofParts? negative ((r.coefficient + 1 + 4) / 10) (r.scale - 1)

/-- Characters that may follow once no place is left. -/
def mayFollow (rest : List Char) : Bool := rest.all fun c => c.isDigit || c == '_'

/-- Reads the characters after the sign. Places for which there is no room are rounded away;
digits before the point have to fit. -/
def read? (negative : Bool) : Reading → List Char → Option Decimal
  | r, [] => if r.started then ofParts? negative r.coefficient r.scale else none
  | r, c :: rest =>
    let full := r.pointed && r.scale == maxScale
    if c.isDigit then
      let coefficient := 10 * r.coefficient + Digits.digitValue c
      if full ∨ (r.pointed ∧ Nat.pow 2 96 ≤ coefficient) then
        if mayFollow rest then r.round? negative (Digits.digitValue c) else none
      else if coefficient < Nat.pow 2 96 then
        read? negative
          { r with coefficient, scale := if r.pointed then r.scale + 1 else 0, started := true }
          rest
      else none
    else if c = '_' then
      if ¬ r.started then none
      else if full then if mayFollow rest then r.round? negative 0 else none
      else read? negative r rest
    else if c = '.' ∧ ¬ r.pointed then read? negative { r with pointed := true } rest
    else none

end Reading

/-- A number without an exponent: digits with at most one point, after at most one sign. Once a
digit was met, low lines may stand between the digits. -/
def ofPlain? : List Char → Option Decimal
  | '-' :: rest => Reading.read? true {} rest
  | '+' :: rest => Reading.read? false {} rest
  | text => Reading.read? false {} text

/-- The number with the given number of places, a half rounded away from zero. -/
def dropPlaces (coefficient places : Nat) : Nat :=
  (coefficient + Nat.pow 10 places / 2) / Nat.pow 10 places

/-- Ten to the minus `n`-th times the number, rounded if there are not enough places. -/
def shiftRight? (d : Decimal) (n : Nat) : Option Decimal :=
  if maxScale < n then none
  else if d.scale + n ≤ maxScale then ofParts? d.negative d.coefficient (d.scale + n)
  else ofParts? d.negative (dropPlaces d.coefficient (d.scale + n - maxScale)) maxScale

/-- Ten to the `n`-th times the number, if there is room for it. Places are given up first. -/
def shiftLeft? (d : Decimal) (n : Nat) : Option Decimal :=
  if maxScale < n then none
  else if n ≤ d.scale then ofParts? d.negative d.coefficient (d.scale - n)
  else ofParts? d.negative (d.coefficient * Nat.pow 10 (n - d.scale)) 0

/-- An exponent: a count of 32 bits, with at most one plus sign. -/
def exponent? (text : List Char) : Option Nat :=
  match Digits.integer? false text with
  | some n => if n < Int.pow 2 32 then some n.toNat else none
  | none => none

/-- A number before the first `e`, and the power of ten after it. -/
def ofScientific? (text : List Char) : Option Decimal :=
  let isMark := fun c => c == 'e' || c == 'E'
  match text.dropWhile (fun c => !isMark c) with
  | [] => none
  | _ :: exponent => do
    let base ← ofPlain? (text.takeWhile fun c => !isMark c)
    match exponent with
    | '-' :: digits => base.shiftRight? (← exponent? digits)
    | digits => base.shiftLeft? (← exponent? digits)

def ofChars? (text : List Char) : Option Decimal :=
  match ofPlain? text with
  | some d => some d
  | none => ofScientific? text

end Decimal

end ResourceSql
