/-
Hexadecimal digits, of either case when read.
-/

namespace ResourceSql.Hexadecimal

/-- The value of a digit. -/
def value? (c : Char) : Option Nat :=
  if c.isDigit then some (c.toNat - '0'.toNat)
  else if 'a' ≤ c ∧ c ≤ 'f' then some (c.toNat - 'a'.toNat + 10)
  else if 'A' ≤ c ∧ c ≤ 'F' then some (c.toNat - 'A'.toNat + 10)
  else none

/-- The number that digits denote, if all of them are digits. -/
def toNat? (digits : List Char) : Option Nat :=
  (digits.mapM value?).map fun values => values.foldl (fun n d => 16 * n + d) 0

/-- The lower-case digit for a number below sixteen. -/
def digit (d : Nat) : Char :=
  if d < 10 then Char.ofNat ('0'.toNat + d) else Char.ofNat ('a'.toNat + (d - 10))

/-- The upper-case digit for a number below sixteen. -/
def upperDigit (d : Nat) : Char :=
  if d < 10 then Char.ofNat ('0'.toNat + d) else Char.ofNat ('A'.toNat + (d - 10))

/-- The last `count` digits of a number, each written by `write`. -/
def digits (write : Nat → Char) : Nat → Nat → List Char
  | 0, _ => []
  | count + 1, n => digits write count (n / 16) ++ [write (n % 16)]

end ResourceSql.Hexadecimal
