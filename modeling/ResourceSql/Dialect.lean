/-
The databases that statements are written for, and their rules for identifiers
and for patterns.
-/
import ResourceSql.Operator

namespace ResourceSql

inductive Dialect where
  | postgreSql
  | mySql
  | sqlServer
  deriving DecidableEq

namespace Dialect

def all : List Dialect := [postgreSql, mySql, sqlServer]

/-- The name for people. -/
def title : Dialect → String
  | postgreSql => "PostgreSql"
  | mySql => "MySql"
  | sqlServer => "SqlServer"

/-- The name in documents. -/
def name : Dialect → String
  | postgreSql => "postgresql"
  | mySql => "mysql"
  | sqlServer => "sqlserver"

/-- The character before a quoted identifier. -/
def openingMark : Dialect → Char
  | postgreSql => '"'
  | mySql => '\x60'
  | sqlServer => '['

/-- The character behind a quoted identifier. -/
def closingMark : Dialect → Char
  | postgreSql => '"'
  | mySql => '\x60'
  | sqlServer => ']'

/-- Text with one character doubled. -/
def double (mark : Char) (text : List Char) : List Char :=
  text.flatMap fun c => if c = mark then [c, c] else [c]

/-- An identifier between marks; a closing mark inside it is doubled. -/
def quoteChars (d : Dialect) (name : List Char) : List Char :=
  d.openingMark :: (double d.closingMark name ++ [d.closingMark])

def quote (d : Dialect) (name : String) : String := String.ofList (d.quoteChars name.toList)

/-- A character of a pattern that stands for itself. -/
def escapeWildcard (d : Dialect) (c : Char) : List Char :=
  match d with
  | postgreSql | mySql => if c = '\\' ∨ c = '%' ∨ c = '_' then ['\\', c] else [c]
  | sqlServer => if c = '[' ∨ c = '%' ∨ c = '_' then ['[', c, ']'] else [c]

/-- The pattern for texts that have the given text at the given place. -/
def patternChars (d : Dialect) (place : TextMatch) (text : List Char) : List Char :=
  let escaped := text.flatMap d.escapeWildcard
  match place with
  | .startsWith => escaped ++ ['%']
  | .endsWith => '%' :: escaped
  | .contains => '%' :: (escaped ++ ['%'])

def pattern (d : Dialect) (place : TextMatch) (text : String) : String :=
  String.ofList (d.patternChars place text.toList)

end Dialect

end ResourceSql
