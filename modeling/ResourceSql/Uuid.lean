/-
Universally unique identifiers: 128 bits, written as 32 lower-case hexadecimal
digits in five groups.
-/
import ResourceSql.Number.Hexadecimal

namespace ResourceSql

structure Uuid where
  bits : BitVec 128
  deriving DecidableEq

namespace Uuid

/-- Lengths of the groups of digits. -/
def groups : List Nat := [8, 4, 4, 4, 12]

/-- Cuts digits into groups, with a hyphen between them. -/
def hyphenate : List Nat → List Char → List Char
  | [], digits => digits
  | [_], digits => digits
  | size :: sizes, digits => digits.take size ++ '-' :: hyphenate sizes (digits.drop size)

def toString (u : Uuid) : String :=
  String.ofList (hyphenate groups (Hexadecimal.digits Hexadecimal.digit 32 u.bits.toNat))

/-- Takes the hyphens out of grouped digits, if they stand where they belong. -/
def ungroup? : List Nat → List Char → Option (List Char)
  | [], digits => if digits = [] then some [] else none
  | [size], digits => if digits.length = size then some digits else none
  | size :: sizes, digits =>
    match digits.drop size with
    | '-' :: rest => (ungroup? sizes rest).map (digits.take size ++ ·)
    | _ => none

/-- The identifier of 32 digits. -/
def ofDigits? (digits : List Char) : Option Uuid :=
  if digits.length = 32 then
    (Hexadecimal.toNat? digits).map fun n => ⟨BitVec.ofNat 128 n⟩
  else none

/-- What stands in braces, or after the name of the namespace of a URN. -/
def unwrap (text : List Char) : List Char :=
  if text.length = 38 ∧ text.head? = some '\x7b' ∧ text.getLast? = some '\x7d' then
    (text.drop 1).dropLast
  else if text.length = 45 ∧ (text.take 9).map Char.toLower = "urn:uuid:".toList then text.drop 9
  else text

/-- The digits alone, or in groups; the groups may be wrapped. -/
def ofString? (text : String) : Option Uuid :=
  let chars := text.toList
  if chars.length = 32 then ofDigits? chars
  else (ungroup? groups (unwrap chars)).bind ofDigits?

end Uuid

end ResourceSql
