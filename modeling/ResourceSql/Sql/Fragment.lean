/-
Statements as sequences of fragments: words and signs, identifiers, and
parameters. The fragments say what is an identifier and what is bound; the
dialect only decides how an identifier is quoted. The text of a statement is the
texts of its fragments one after another, and its parameters are those that
occur among the fragments.
-/
import ResourceSql.Sql.Tree

namespace ResourceSql.Sql

inductive Fragment where
  | words (text : String)
  | identifier (name : String)
  | parameter (p : Parameter)
  deriving DecidableEq

namespace Fragment

def chars (d : Dialect) : Fragment → List Char
  | words text => text.toList
  | identifier name => d.quoteChars name.toList
  | parameter p => p.name.toList

end Fragment

/-- Values by the names that they are bound to, in the order in which the names came first. -/
abbrev Bindings := List (String × Value)

namespace Bindings

/-- Binds a value. A name that comes again keeps its place and gets the new value. -/
def bind (name : String) (value : Value) : Bindings → Bindings
  | [] => [(name, value)]
  | (other, held) :: rest =>
    if other = name then (name, value) :: rest else (other, held) :: bind name value rest

/-- The bindings as assignments, for people. -/
def displayChars : Bindings → List Char
  | [] => []
  | [(name, value)] => value.assignmentChars name
  | (name, value) :: rest => value.assignmentChars name ++ ',' :: ' ' :: displayChars rest

def display (b : Bindings) : String := String.ofList b.displayChars

end Bindings

/-- The text of fragments. -/
def textOf (d : Dialect) (fragments : List Fragment) : List Char := fragments.flatMap (·.chars d)

/-- The parameters among fragments, in their order. -/
def parametersOf (fragments : List Fragment) : List Parameter :=
  fragments.filterMap fun
    | .parameter p => some p
    | _ => none

def bindingsOf (fragments : List Fragment) : Bindings :=
  (parametersOf fragments).foldl (fun b p => b.bind p.name p.value) []

/-- A statement that is ready to be executed. -/
structure Command where
  statement : String
  parameters : Bindings
  deriving DecidableEq

def Command.ofFragments (d : Dialect) (fragments : List Fragment) : Command :=
  ⟨String.ofList (textOf d fragments), bindingsOf fragments⟩

end ResourceSql.Sql
