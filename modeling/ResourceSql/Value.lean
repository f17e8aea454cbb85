/-
The values that are bound to the parameters of a statement, and their texts: a
literal for people, which is never sent to a database, and a JSON value with the
type beside it.
-/
import ResourceSql.Dialect
import ResourceSql.Json.Decoding
import ResourceSql.Number.Decimal
import ResourceSql.Number.Layout
import ResourceSql.Uuid

namespace ResourceSql

inductive Value where
  | null
  | boolean (b : Bool)
  | char (c : Char)
  | byte (n : UInt8)
  | signedByte (n : Int8)
  | int16 (n : Int16)
  | int32 (n : Int32)
  | int64 (n : Int64)
  | uint16 (n : UInt16)
  | uint32 (n : UInt32)
  | uint64 (n : UInt64)
  | single (x : Single)
  | double (x : Double)
  | decimal (d : Decimal)
  | text (s : String)
  | uuid (u : Uuid)
  | enum (typeName member : String)
  deriving DecidableEq

namespace Value

def isNull : Value → Bool
  | null => true
  | _ => false

/-! ## Literals -/

/-- A text between single quotes; a quote inside it is doubled. -/
def quoteChars (text : List Char) : List Char := '\x27' :: (Dialect.double '\x27' text ++ ['\x27'])

/-- A character stands between quotes as it is. -/
def literalChars : Value → List Char
  | null => ['n', 'u', 'l', 'l']
  | boolean true => quoteChars ['T', 'r', 'u', 'e']
  | boolean false => quoteChars ['F', 'a', 'l', 's', 'e']
  | char c => ['\x27', c, '\x27']
  | byte n => '0' :: 'x' :: Hexadecimal.digits Hexadecimal.upperDigit 2 n.toNat
  | signedByte n => Digits.ofInt n.toInt
  | int16 n => Digits.ofInt n.toInt
  | int32 n => Digits.ofInt n.toInt
  | int64 n => Digits.ofInt n.toInt
  | uint16 n => Digits.ofNat n.toNat
  | uint32 n => Digits.ofNat n.toNat
  | uint64 n => Digits.ofNat n.toNat
  | single x => NumberLayout.plain.write x
  | double x => NumberLayout.plain.write x
  | decimal d => d.toChars
  | text s => quoteChars s.toList
  | uuid u => quoteChars u.toString.toList
  | enum typeName member => typeName.toList ++ '.' :: member.toList

def literal (v : Value) : String := String.ofList v.literalChars

/-- The literal of a value behind the name that it is bound to. -/
def assignmentChars (name : String) (v : Value) : List Char :=
  name.toList ++ ' ' :: '=' :: ' ' :: v.literalChars

def assignment (name : String) (v : Value) : String := String.ofList (v.assignmentChars name)

/-! ## JSON -/

def typed (type : String) (value : Json) : Json :=
  .object [("type", .string type), ("value", value)]

/-- The type and the value, which null has none of. -/
def toJson : Value → Json
  | null => .object [("type", .string "null")]
  | boolean b => typed "boolean" (.bool b)
  | char c => typed "char" (.string (String.ofList [c]))
  | byte n => typed "byte" (.ofNat n.toNat)
  | signedByte n => typed "s_byte" (.ofInt n.toInt)
  | int16 n => typed "int16" (.ofInt n.toInt)
  | int32 n => typed "int32" (.ofInt n.toInt)
  | int64 n => typed "int64" (.ofInt n.toInt)
  | uint16 n => typed "u_int16" (.ofNat n.toNat)
  | uint32 n => typed "u_int32" (.ofNat n.toNat)
  | uint64 n => typed "u_int64" (.ofNat n.toNat)
  | single x => typed "float32" (.ofSingle x)
  | double x => typed "float64" (.ofDouble x)
  | decimal d => typed "decimal" (.string d.toString)
  | text s => typed "string" (.string s)
  | uuid u => typed "uuid" (.string u.toString)
  | enum typeName member =>
    typed "enum" (.object [("type_name", .string typeName), ("member", .string member)])

/-! ## Reading -/

/-- The number of the type, if it lies between the bounds. -/
def bounded {α : Type} (low high : Int) (make : Int → α) (n : Int) : Option α :=
  if low ≤ n ∧ n ≤ high then some (make n) else none

def byte? : Int → Option Value := bounded 0 255 fun n => byte (UInt8.ofNat n.toNat)

def signedByte? : Int → Option Value := bounded (-128) 127 fun n => signedByte (Int8.ofInt n)

def int16? : Int → Option Value :=
  bounded (-Int.pow 2 15) (Int.pow 2 15 - 1) fun n => int16 (Int16.ofInt n)

def int32? : Int → Option Value :=
  bounded (-Int.pow 2 31) (Int.pow 2 31 - 1) fun n => int32 (Int32.ofInt n)

def int64? : Int → Option Value :=
  bounded (-Int.pow 2 63) (Int.pow 2 63 - 1) fun n => int64 (Int64.ofInt n)

def uint16? : Int → Option Value :=
  bounded 0 (Int.pow 2 16 - 1) fun n => uint16 (UInt16.ofNat n.toNat)

def uint32? : Int → Option Value :=
  bounded 0 (Int.pow 2 32 - 1) fun n => uint32 (UInt32.ofNat n.toNat)

def uint64? : Int → Option Value :=
  bounded 0 (Int.pow 2 64 - 1) fun n => uint64 (UInt64.ofNat n.toNat)

/-- The character of a text that has just one. -/
def char? (text : String) : Option Char :=
  match text.toList with
  | [c] => some c
  | _ => none

/-- The number of a floating-point format nearest to a JSON number. -/
def binary {format : BinaryFormat} : JsonNumber → Binary format
  | .integer n => .ofInt n
  | .double x => x.convert
  | .single x => x.convert

/-- A decoded value that another function may refuse. -/
def refine {α β : Type} (item : Decoder α) (f : α → Option β) : Decoder β := fun o =>
  match item o with
  | .ok a =>
    match f a with
    | some b => .ok b
    | none => .fault o.mismatch
  | .fault fault => .fault fault

def number : Decoder JsonNumber
  | .number n _ => .ok n
  | o => .fault o.mismatch

def integer (f : Int → Option Value) : Decoder Value :=
  refine number fun
    | .integer n => f n
    | _ => none

/-- A decimal as a text, or as a number that is written as one. -/
def decimalOfJson : Decoder Value
  | .number (.integer n) after =>
    match Decimal.ofChars? (Digits.ofInt n) with
    | some d => .ok (decimal d)
    | none => .fault ⟨.mismatch, after⟩
  | .number (.double x) after =>
    match Decimal.ofChars? (NumberLayout.plain.write x) with
    | some d => .ok (decimal d)
    | none => .fault ⟨.mismatch, after⟩
  | o => refine Decoder.text (fun s => (Decimal.ofChars? s.toList).map decimal) o

/-- Reads the values of a type. -/
def ofType? (type : String) : Option (Decoder Value) :=
  match type with
  | "boolean" => some fun o => boolean <$> Decoder.flag o
  | "char" => some (refine Decoder.text fun s => (char? s).map char)
  | "byte" => some (integer byte?)
  | "s_byte" => some (integer signedByte?)
  | "int16" => some (integer int16?)
  | "int32" => some (integer int32?)
  | "int64" => some (integer int64?)
  | "u_int16" => some (integer uint16?)
  | "u_int32" => some (integer uint32?)
  | "u_int64" => some (integer uint64?)
  | "float32" => some fun o => (fun n => single (binary n)) <$> number o
  | "float64" => some fun o => (fun n => double (binary n)) <$> number o
  | "decimal" => some decimalOfJson
  | "string" => some fun o => text <$> Decoder.text o
  | "uuid" => some (refine Decoder.text fun s => (Uuid.ofString? s).map uuid)
  | "enum" => some (Decoder.record ["type_name", "member"] fun fields =>
      (enum <$> fields.required "type_name" Decoder.text).ap
        (fields.required "member" Decoder.text))
  | _ => none

/-- Null has no value beside its type, or null. -/
def nullValue : Decoder Value
  | .null _ => .ok null
  | o => .fault o.mismatch

/-- Reads what `toJson` writes. -/
def decode : Decoder Value :=
  Decoder.record ["type", "value"] fun fields =>
    match fields.required "type" Decoder.text with
    | .fault fault => .fault fault
    | .ok "null" => fields.withDefault "value" null nullValue
    | .ok type =>
      match ofType? type with
      | some item => fields.required "value" item
      | none => .fault fields.absent

end Value

end ResourceSql
