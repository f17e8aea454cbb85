/-
The text of JSON values: on one line without spaces, or laid out over several
lines. Only what has to be escaped in a string is escaped.
-/
import ResourceSql.Json.Value
import ResourceSql.Number.Layout
import ResourceSql.Number.Hexadecimal

namespace ResourceSql

namespace JsonNumber

def write : JsonNumber → List Char
  | integer n => Digits.ofInt n
  | double x => NumberLayout.document.write x
  | single x => NumberLayout.singleDocument.write x

end JsonNumber

namespace Json

/-- The letter after the backslash for a character that has a short escape. -/
def shortEscape? (c : Char) : Option Char :=
  if c = '"' then some '"'
  else if c = '\\' then some '\\'
  else if c = '\n' then some 'n'
  else if c = '\r' then some 'r'
  else if c = '\t' then some 't'
  else if c = '\x08' then some 'b'
  else if c = '\x0c' then some 'f'
  else none

/-- Quotation marks, backslashes and the characters below the space are escaped. -/
def escapeChar (c : Char) : List Char :=
  match shortEscape? c with
  | some letter => ['\\', letter]
  | none =>
    if c.toNat < 32 then '\\' :: 'u' :: Hexadecimal.digits Hexadecimal.digit 4 c.toNat else [c]

def quote (text : List Char) : List Char := '"' :: (text.flatMap escapeChar ++ ['"'])

mutual

/-- The text without spaces. -/
def compact : Json → List Char
  | null => ['n', 'u', 'l', 'l']
  | bool true => ['t', 'r', 'u', 'e']
  | bool false => ['f', 'a', 'l', 's', 'e']
  | number n => n.write
  | string s => quote s.toList
  | array [] => ['[', ']']
  | array (item :: items) => '[' :: (compact item ++ compactItems items ++ [']'])
  | object [] => ['\x7b', '\x7d']
  | object ((name, value) :: members) =>
    '\x7b' :: (quote name.toList ++ ':' :: compact value ++ compactMembers members ++ ['\x7d'])

/-- Each item after a comma. -/
def compactItems : List Json → List Char
  | [] => []
  | item :: items => ',' :: (compact item ++ compactItems items)

def compactMembers : List (String × Json) → List Char
  | [] => []
  | (name, value) :: members =>
    ',' :: (quote name.toList ++ ':' :: compact value ++ compactMembers members)

end

/-- A new line that begins with two spaces for each enclosing value. -/
def newLine (depth : Nat) : List Char := '\n' :: List.replicate (2 * depth) ' '

mutual

/-- The text with every item and member on a line of its own. -/
def pretty (depth : Nat) : Json → List Char
  | null => ['n', 'u', 'l', 'l']
  | bool true => ['t', 'r', 'u', 'e']
  | bool false => ['f', 'a', 'l', 's', 'e']
  | number n => n.write
  | string s => quote s.toList
  | array [] => ['[', ']']
  | array (item :: items) =>
    '[' :: (newLine (depth + 1) ++ pretty (depth + 1) item ++ prettyItems (depth + 1) items ++
      newLine depth ++ [']'])
  | object [] => ['\x7b', '\x7d']
  | object ((name, value) :: members) =>
    '\x7b' :: (newLine (depth + 1) ++ quote name.toList ++ ':' :: ' ' :: pretty (depth + 1) value ++
      prettyMembers (depth + 1) members ++ newLine depth ++ ['\x7d'])

def prettyItems (depth : Nat) : List Json → List Char
  | [] => []
  | item :: items => ',' :: (newLine depth ++ pretty depth item ++ prettyItems depth items)

def prettyMembers (depth : Nat) : List (String × Json) → List Char
  | [] => []
  | (name, value) :: members =>
    ',' :: (newLine depth ++ quote name.toList ++ ':' :: ' ' :: pretty depth value ++
      prettyMembers depth members)

end

def toText (value : Json) : String := String.ofList value.compact

def toPrettyText (value : Json) : String := String.ofList (value.pretty 0)

end Json

end ResourceSql
