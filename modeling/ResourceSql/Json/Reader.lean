/-
Reading JSON texts from left to right into outlines. No text is refused here:
one that is not JSON has an outline that ends in the fault.
-/
import ResourceSql.Json.Outline
import ResourceSql.Number.Hexadecimal

namespace ResourceSql

/-- What is left of a text, and the place where it starts. -/
structure Cursor where
  rest : List Char
  place : Place

namespace Cursor

def ofString (text : String) : Cursor := ⟨text.toList, .first⟩

/-- Blanks, tabs, line feeds and carriage returns may stand between values. -/
def isBlank (c : Char) : Bool := c == ' ' || c == '\t' || c == '\n' || c == '\r'

/-- Moves over characters of one kind. -/
def skipWhile (p : Char → Bool) : List Char → Place → Cursor
  | [], place => ⟨[], place⟩
  | c :: rest, place => if p c then skipWhile p rest (place.after c) else ⟨c :: rest, place⟩

def skipBlanks (cur : Cursor) : Cursor := skipWhile isBlank cur.rest cur.place

/-- The text ends here, though something is still missing. -/
def endsEarly (cur : Cursor) : Fault := ⟨.incomplete, cur.place⟩

/-- The next character is out of place, and so is the end of the text. -/
def outOfPlace (cur : Cursor) : Fault :=
  ⟨.malformed, match cur.rest with
    | [] => cur.place
    | c :: _ => cur.place.after c⟩

/-- What is wrong where a certain character was to come next. -/
def missing (cur : Cursor) : Fault :=
  match cur.rest with
  | [] => cur.endsEarly
  | _ :: _ => cur.outOfPlace

end Cursor

/-! ## Words -/

/-- Reads the letters of a word. -/
def readWord : List Char → Cursor → Except Fault Cursor
  | [], cur => .ok cur
  | letter :: letters, ⟨rest, place⟩ =>
    match rest with
    | [] => .error ⟨.incomplete, place⟩
    | c :: rest =>
      if c = letter then readWord letters ⟨rest, place.after c⟩
      else .error ⟨.malformed, place.after c⟩

/-! ## Strings -/

/-- A piece of a string: a character, or a number of 16 bits from an escape. -/
inductive StringUnit where
  | char (c : Char)
  | code (n : Nat)

/-- The characters of a string so far as they can be read, and how it ends. If it breaks off,
there is one fault for a reader of the string and one for a reader who passes over it. -/
structure StringScan where
  units : List (StringUnit × Place)
  ending : Except (Fault × Fault) Cursor

namespace StringScan

def cons (unit : StringUnit) (place : Place) (scan : StringScan) : StringScan :=
  { scan with units := (unit, place) :: scan.units }

def broken (fault : Fault) : StringScan := ⟨[], .error (fault, fault)⟩

end StringScan

/-- The character of an escape of one letter. -/
def simpleEscape? (letter : Char) : Option Char :=
  if letter = '"' then some '"'
  else if letter = '\\' then some '\\'
  else if letter = '/' then some '/'
  else if letter = 'n' then some '\n'
  else if letter = 'r' then some '\r'
  else if letter = 't' then some '\t'
  else if letter = 'b' then some '\x08'
  else if letter = 'f' then some '\x0c'
  else none

/-- Whether the text has at least so many bytes left. -/
def hasBytes : Nat → List Char → Bool
  | 0, _ => true
  | _ + 1, [] => false
  | n + 1, c :: rest => hasBytes (n + 1 - c.utf8Size) rest

/-- Reads a string from behind its opening mark. -/
def scanString : List Char → Place → StringScan
  | [], place => .broken ⟨.incomplete, place⟩
  | '"' :: rest, place => ⟨[], .ok ⟨rest, place.after '"'⟩⟩
  | '\\' :: [], place => .broken ⟨.incomplete, place.after '\\'⟩
  | '\\' :: 'u' :: a :: b :: c :: d :: rest, place =>
    let place := (((((place.after '\\').after 'u').after a).after b).after c).after d
    match Hexadecimal.toNat? [a, b, c, d] with
    | some n => .cons (.code n) place (scanString rest place)
    | none => .broken ⟨.malformed, place⟩
  | '\\' :: 'u' :: rest, place =>
    .broken ⟨if hasBytes 4 rest then .malformed else .incomplete, (place.after '\\').after 'u'⟩
  | '\\' :: letter :: rest, place =>
    let place := (place.after '\\').after letter
    match simpleEscape? letter with
    | some c => .cons (.char c) place (scanString rest place)
    | none => .broken ⟨.malformed, place⟩
  | c :: rest, place =>
    if c.toNat < 32 then ⟨[], .error (⟨.malformed, place.after c⟩, ⟨.malformed, place⟩)⟩
    else .cons (.char c) (place.after c) (scanString rest (place.after c))

def isHighSurrogate (n : Nat) : Bool := 0xD800 ≤ n && n < 0xDC00

def isLowSurrogate (n : Nat) : Bool := 0xDC00 ≤ n && n < 0xE000

/-- The characters of a string. Numbers that are halves of a character must come in pairs; a half
at which the string breaks off is not yet a fault. -/
def joinUnits : List (StringUnit × Place) → Except Fault (List Char)
  | [] => .ok []
  | (.char c, _) :: units => (joinUnits units).map (c :: ·)
  | (.code high, place) :: (.code low, _) :: units =>
    if isHighSurrogate high ∧ isLowSurrogate low then
      (joinUnits units).map
        (Char.ofNat (0x10000 + (high - 0xD800) * 0x400 + (low - 0xDC00)) :: ·)
    else if isHighSurrogate high ∨ isLowSurrogate high then .error ⟨.malformed, place⟩
    else (joinUnits ((.code low, place) :: units)).map (Char.ofNat high :: ·)
  | (.code n, place) :: units =>
    if isHighSurrogate n ∨ isLowSurrogate n then .error ⟨.malformed, place⟩
    else (joinUnits units).map (Char.ofNat n :: ·)

/-- Whether the last piece is the first half of a character. -/
def endsInHalf (units : List (StringUnit × Place)) : Bool :=
  match units.getLast? with
  | some (.code n, _) => isHighSurrogate n
  | _ => false

/-- What a reader meets first in a string that breaks off at the given fault. -/
def brokenFault (units : List (StringUnit × Place)) (fault : Fault) : Fault :=
  match joinUnits (if endsInHalf units then units.dropLast else units) with
  | .ok _ => fault
  | .error half => half

/-! ## Numbers -/

/-- The parts of a number: the digits before and after the point, and the power of ten. -/
structure NumberText where
  negative : Bool
  whole : List Char
  fraction : List Char
  exponent : Int
  /-- Whether the number has a point or an exponent. -/
  real : Bool

namespace NumberText

/-- A whole number that 64 bits can hold is an integer. The others are the nearest floating-point
number, if that is finite; minus zero is one of them. -/
def value? (t : NumberText) : Option JsonNumber :=
  let magnitude := Digits.toNat t.whole
  let integer : Int := if t.negative then -magnitude else magnitude
  if ¬ t.real ∧ -Int.pow 2 63 ≤ integer ∧ integer < Int.pow 2 64 ∧
      ¬ (t.negative ∧ magnitude = 0) then
    some (.integer integer)
  else
    let x : Double :=
      Binary.ofDecimal t.negative (t.whole ++ t.fraction) (t.exponent - t.fraction.length)
    if x.isInfinite then none else some (.double x)

end NumberText

/-- Faults of a number that breaks off: for a reader, and for one who passes over it, to whom the
end of the text is one more character that is out of place. -/
abbrev NumberFault := Fault × Fault

def takeDigits (cur : Cursor) : List Char × Cursor :=
  (cur.rest.takeWhile Char.isDigit, Cursor.skipWhile Char.isDigit cur.rest cur.place)

def numberFault (cur : Cursor) : NumberFault := (cur.missing, cur.outOfPlace)

/-- Digits before the point. Only a zero on its own may come first. -/
def readWhole (cur : Cursor) : Except NumberFault (List Char × Cursor) :=
  match cur.rest with
  | '0' :: rest =>
    let next : Cursor := ⟨rest, cur.place.after '0'⟩
    if (rest.takeWhile Char.isDigit).isEmpty then .ok (['0'], next)
    else .error (next.outOfPlace, next.outOfPlace)
  | _ =>
    match takeDigits cur with
    | ([], _) => .error (numberFault cur)
    | (digits, next) => .ok (digits, next)

/-- The point and the digits after it, of which there is at least one. -/
def readFraction (cur : Cursor) : Except NumberFault (Option (List Char) × Cursor) :=
  match cur.rest with
  | '.' :: rest =>
    match takeDigits ⟨rest, cur.place.after '.'⟩ with
    | ([], next) => .error (numberFault next)
    | (digits, next) => .ok (some digits, next)
  | _ => .ok (none, cur)

/-- The mark, the sign and the digits of a power of ten. -/
def readExponent (cur : Cursor) : Except NumberFault (Option Int × Cursor) :=
  match cur.rest with
  | mark :: rest =>
    if mark = 'e' ∨ mark = 'E' then
      let next : Cursor := ⟨rest, cur.place.after mark⟩
      let (negative, next) : Bool × Cursor := match next.rest with
        | '-' :: rest => (true, ⟨rest, next.place.after '-'⟩)
        | '+' :: rest => (false, ⟨rest, next.place.after '+'⟩)
        | _ => (false, next)
      match takeDigits next with
      | ([], next) => .error (numberFault next)
      | (digits, next) =>
        let n : Int := Digits.toNat digits
        .ok (some (if negative then -n else n), next)
    else .ok (none, cur)
  | [] => .ok (none, cur)

/-- Reads a number from its sign or its first digit on. -/
def scanNumber (cur : Cursor) : Except NumberFault (NumberText × Cursor) := do
  let (negative, cur) : Bool × Cursor := match cur.rest with
    | '-' :: rest => (true, ⟨rest, cur.place.after '-'⟩)
    | _ => (false, cur)
  let (whole, cur) ← readWhole cur
  let (fraction, cur) ← readFraction cur
  let (exponent, cur) ← readExponent cur
  return (⟨negative, whole, fraction.getD [], exponent.getD 0, fraction.isSome || exponent.isSome⟩,
    cur)

/-! ## Values -/

/-- Lists and objects may be nested this deep. -/
def nestingLimit : Nat := 127

/-- A value that was read, and what is left of the text, or the fault at which it breaks off. -/
abbrev ReadValue := Outline × Except Fault Cursor

def readLiteral (letters : List Char) (make : Place → Outline) (cur : Cursor) : ReadValue :=
  match readWord letters cur with
  | .ok next => (make next.place, .ok next)
  | .error fault => (.broken (some cur.place) fault, .error fault)

def readString (cur : Cursor) : ReadValue :=
  let scan := scanString (cur.rest.drop 1) (cur.place.after '"')
  match scan.ending with
  | .ok next =>
    match joinUnits scan.units with
    | .ok text => (.string (String.ofList text) next.place, .ok next)
    | .error fault => (.unreadable fault (.string "" next.place), .ok next)
  | .error (fault, passing) =>
    let fault := brokenFault scan.units fault
    (.unreadable fault (.broken none passing), .error fault)

def readNumber (cur : Cursor) : ReadValue :=
  match scanNumber cur with
  | .error (fault, passing) =>
    (.unreadable fault (.broken (some cur.place) passing), .error fault)
  | .ok (text, next) =>
    match text.value? with
    | some n => (.number n next.place, .ok next)
    | none => (.unreadable ⟨.malformed, next.place⟩ (.number (.integer 0) next.place), .ok next)

/-- The fault of going one level deeper. -/
def tooDeep? (depth : Nat) (cur : Cursor) : Option Fault :=
  if depth < nestingLimit then none else some cur.outOfPlace

mutual

/-- Reads a value inside `depth` lists and objects. The fuel bounds the number of steps. -/
def readValue : Nat → Nat → Cursor → ReadValue
  | 0, _, cur => (.broken none cur.endsEarly, .error cur.endsEarly)
  | fuel + 1, depth, cur =>
    let cur := cur.skipBlanks
    match cur.rest with
    | [] => (.broken none cur.endsEarly, .error cur.endsEarly)
    | c :: rest =>
      let next : Cursor := ⟨rest, cur.place.after c⟩
      if c = 'n' then readLiteral ['n', 'u', 'l', 'l'] .null cur
      else if c = 't' then readLiteral ['t', 'r', 'u', 'e'] (.bool true) cur
      else if c = 'f' then readLiteral ['f', 'a', 'l', 's', 'e'] (.bool false) cur
      else if c = '"' then readString cur
      else if c = '-' ∨ c.isDigit then readNumber cur
      else if c = '[' then
        let (items, ending) := readItems fuel (depth + 1) true next
        (.array cur.place (tooDeep? depth cur) items (ending.map Cursor.place), ending)
      else if c = '\x7b' then
        let (members, ending) := readMembers fuel (depth + 1) true next
        (.object cur.place (tooDeep? depth cur) members (ending.map Cursor.place), ending)
      else (.broken none cur.outOfPlace, .error cur.outOfPlace)

/-- Reads the items of a list up to its end. All but the first come after a comma. -/
def readItems : Nat → Nat → Bool → Cursor → List Outline × Except Fault Cursor
  | 0, _, _, cur => ([], .error cur.endsEarly)
  | fuel + 1, depth, isFirst, cur =>
    let cur := cur.skipBlanks
    match cur.rest with
    | [] => ([], .error cur.endsEarly)
    | c :: rest =>
      let next : Cursor := ⟨rest, cur.place.after c⟩
      if c = ']' then ([], .ok next)
      else if ¬ isFirst ∧ c ≠ ',' then ([], .error cur.outOfPlace)
      else
        let cur := if isFirst then cur else next.skipBlanks
        if ¬ isFirst ∧ cur.rest.head? = some ']' then ([], .error cur.outOfPlace)
        else
          let (item, ending) := readValue fuel depth cur
          match ending with
          | .error fault => ([item], .error fault)
          | .ok next =>
            let (items, ending) := readItems fuel depth false next
            (item :: items, ending)

/-- Reads the members of an object up to its end. All but the first come after a comma. -/
def readMembers : Nat → Nat → Bool → Cursor →
    List (Except Fault String × Place × Outline) × Except Fault Cursor
  | 0, _, _, cur => ([], .error cur.endsEarly)
  | fuel + 1, depth, isFirst, cur =>
    let cur := cur.skipBlanks
    match cur.rest with
    | [] => ([], .error cur.endsEarly)
    | c :: rest =>
      let next : Cursor := ⟨rest, cur.place.after c⟩
      if c = '\x7d' then ([], .ok next)
      else if ¬ isFirst ∧ c ≠ ',' then ([], .error cur.outOfPlace)
      else
        let cur := if isFirst then cur else next.skipBlanks
        match cur.rest with
        | '"' :: rest =>
          let scan := scanString rest (cur.place.after '"')
          match scan.ending with
          | .error (fault, passing) =>
            let fault := brokenFault scan.units fault
            ([(.error fault, cur.place, .unreadable fault (.broken none passing))], .error fault)
          | .ok next =>
            let colon := next.skipBlanks
            let (value, ending) : ReadValue := match colon.rest with
              | ':' :: rest => readValue fuel depth ⟨rest, colon.place.after ':'⟩
              | _ => (.broken none colon.missing, .error colon.missing)
            let member := ((joinUnits scan.units).map String.ofList, colon.place, value)
            match ending with
            | .error fault => ([member], .error fault)
            | .ok next =>
              let (members, ending) := readMembers fuel depth false next
              (member :: members, ending)
        | _ => ([], .error cur.missing)

end

/-- A text that was read: its value, and what is wrong behind the value. -/
structure Document where
  root : Outline
  trailing : Option Fault

namespace Document

/-- Reads a text, which should hold one value and nothing else but blanks. -/
def read (text : String) : Document :=
  let start := Cursor.ofString text
  let (root, ending) := readValue (2 * start.rest.length + 2) 0 start
  match ending with
  | .error _ => ⟨root, none⟩
  | .ok next =>
    let next := next.skipBlanks
    ⟨root, if next.rest.isEmpty then none else some next.outOfPlace⟩

end Document

end ResourceSql
