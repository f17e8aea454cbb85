/-
Values of attributes from JSON values. Numbers may be given as text, except
floating-point ones. Null belongs to every type.
-/
import ResourceSql.Compile.Resource
import ResourceSql.Value

namespace ResourceSql

namespace ScalarType

def ofInteger? : ScalarType → Int → Option Value
  | byte => Value.byte?
  | smallint => Value.int16?
  | integer => Value.int32?
  | bigint => Value.int64?
  | _ => fun _ => none

def decimalOfChars? (text : List Char) : Option Value := (Decimal.ofChars? text).map Value.decimal

/-- The text of a number in JSON. -/
def numberChars (n : JsonNumber) : List Char := (Json.number n).toText.toList

/-- Only integers are integers: a number with a point or an exponent is none. -/
def ofNumber? (type : ScalarType) (n : JsonNumber) : Option Value :=
  match type with
  | real => some (.single ((Value.binary n : Double).convert))
  | double => some (.double (Value.binary n))
  | decimal => decimalOfChars? (numberChars n)
  | _ =>
    match n with
    | .integer n => type.ofInteger? n
    | _ => none

def ofText? (type : ScalarType) (text : String) : Option Value :=
  match type with
  | .text => some (.text text)
  | character => (Value.char? text).map Value.char
  | byte => (Digits.integer? false text.toList).bind Value.byte?
  | smallint => (Digits.integer? true text.toList).bind Value.int16?
  | integer => (Digits.integer? true text.toList).bind Value.int32?
  | bigint => (Digits.integer? true text.toList).bind Value.int64?
  | decimal => decimalOfChars? text.toList
  | uuid => (Uuid.ofString? text).map Value.uuid
  | _ => none

/-- The value of the type that a JSON value stands for. -/
def literal (type : ScalarType) (value : Json) : Except RequestError Value :=
  let orMismatch (found : Option Value) : Except RequestError Value :=
    match found with
    | some v => .ok v
    | none => .error (.typeMismatch value type)
  match value with
  | .null => .ok .null
  | .bool b => orMismatch (if type = boolean then some (.boolean b) else none)
  | .number n => orMismatch (type.ofNumber? n)
  | .string s => orMismatch (type.ofText? s)
  | .array _ => .error (.notSupported .arrayValue)
  | .object _ => .error (.notSupported .objectValue)

end ScalarType

/-- A member of a declared enum type. -/
def Metadata.enumMember (metadata : Metadata) (enumType member : String) :
    Except RequestError Value := do
  let declared ← metadata.findEnumType enumType
  if member ∈ declared.members then return .enum enumType member
  else throw (.unknownEnumMember member enumType)

namespace Attribute

/-- The value of an attribute that a JSON value stands for. -/
def literal (metadata : Metadata) (a : Attribute) (value : Json) : Except RequestError Value :=
  if a.type = .enum then
    match value with
    | .null => .ok .null
    | .string member =>
      match a.enumType with
      | some enumType => metadata.enumMember enumType member
      | none => .error (.notSupported (.enumColumnWithoutType a.column))
    | _ => .error (.typeMismatch value .enum)
  else a.type.literal value

end Attribute

end ResourceSql
