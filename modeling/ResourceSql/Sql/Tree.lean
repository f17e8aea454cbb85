/-
Statements as trees. A tree holds what a statement says and nothing about how it
is written: names are not quoted, and conditions are nested instead of put in
brackets.
-/
import ResourceSql.Value
import ResourceSql.Window

namespace ResourceSql.Sql

/-! ## Tables and columns -/

/-- A table, perhaps in a schema, and the alias under which its columns are addressed. -/
structure Table where
  schema : Option String
  name : String
  aliasName : Option String
  deriving DecidableEq

/-- What a column holds: an attribute, or the key of a related row. -/
inductive ColumnRole where
  | scalar
  | foreignKey
  deriving DecidableEq

namespace ColumnRole

def name : ColumnRole → String
  | scalar => "scalar"
  | foreignKey => "foreign_key"

end ColumnRole

/-- A column of a table, addressed through the alias of the table if there is one. -/
structure TableColumn where
  name : String
  role : ColumnRole
  tableAlias : Option String
  deriving DecidableEq

def Table.column (t : Table) (name : String) (role : ColumnRole) : TableColumn :=
  ⟨name, role, t.aliasName⟩

/-- A column that a subquery selects, addressed through the alias of the subquery. -/
structure SelectColumn where
  selected : TableColumn
  selectAlias : String
  deriving DecidableEq

inductive Column where
  | ofTable (c : TableColumn)
  | ofSelect (c : SelectColumn)
  deriving DecidableEq

namespace Column

def name : Column → String
  | ofTable c => c.name
  | ofSelect c => c.selected.name

def role : Column → ColumnRole
  | ofTable c => c.role
  | ofSelect c => c.selected.role

/-- The alias through which the column is addressed. -/
def aliasName : Column → Option String
  | ofTable c => c.tableAlias
  | ofSelect c => some c.selectAlias

end Column

/-! ## Parameters -/

/-- A parameter has a name of at least one character behind an `@`. -/
def isParameterName (name : String) : Bool :=
  match name.toList with
  | '@' :: _ :: _ => true
  | _ => false

/-- A placeholder with the value that is bound to it. -/
structure Parameter where
  name : String
  value : Value
  named : isParameterName name = true
  deriving DecidableEq

/-- What keeps a node from being built. -/
inductive NodeError where
  | tooFewTerms
  | invalidParameterName (name : String)
  deriving DecidableEq

namespace NodeError

def message : NodeError → String
  | tooFewTerms => "At least two terms are required. (Parameter 'terms')"
  | invalidParameterName name =>
    "Parameter name must start with an '@' symbol and not be empty. (Parameter 'name', " ++
      "actual value: '" ++ name ++ "')"

end NodeError

def Parameter.ofName (name : String) (value : Value) : Except NodeError Parameter :=
  if h : isParameterName name = true then .ok ⟨name, value, h⟩
  else .error (.invalidParameterName name)

/-- The parameter `@p` with a number. -/
def Parameter.numbered (n : Nat) (value : Value) : Parameter :=
  ⟨String.ofList ('@' :: 'p' :: Digits.ofNat n), value, by
    simp [isParameterName]⟩

/-! ## Selects and conditions -/

inductive JoinKind where
  | inner
  | left
  deriving DecidableEq

/-- A joined table. Its rows are those whose inner column equals the outer column. -/
structure Join where
  kind : JoinKind
  table : Table
  outer : Column
  inner : TableColumn
  deriving DecidableEq

/-- What a select reads of each row. -/
inductive Projection where
  | columns (columns : List Column)
  | one
  | count
  deriving DecidableEq

mutual

/-- A select; under an alias it can be read from like a table. -/
structure Select where
  projection : Projection
  source : Source
  joins : List Join
  filter : Option Condition
  order : Option (List OrderTerm)
  window : Window
  aliasName : Option String

/-- What a select reads from. -/
inductive Source where
  | table (t : Table)
  | select (s : Select)

inductive Condition where
  | not (child : Condition)
  /-- Two or more terms. -/
  | logical (connective : Connective) (first second : Condition) (rest : List Condition)
  | comparison (operator : Comparison) (left right : Operand)
  /-- The column matches a pattern, which is bound complete and escaped. -/
  | like (column : Column) (place : TextMatch) (pattern : Parameter)
  | isIn (column : Column) (values : List Operand)
  | exists (select : Select)

/-- A single value. -/
inductive Operand where
  | column (c : Column)
  | parameter (p : Parameter)
  | null
  /-- The one value of a select that counts rows. -/
  | count (select : Select)

inductive OrderTerm where
  | column (c : Column) (ascending : Bool)
  | count (select : Select) (ascending : Bool)

end

namespace Condition

/-- Terms joined by a connective, of which there have to be two. -/
def ofTerms (connective : Connective) : List Condition → Except NodeError Condition
  | first :: second :: rest => .ok (logical connective first second rest)
  | _ => .error .tooFewTerms

/-- Conditions joined by a connective. One condition stands for itself. -/
def combine (connective : Connective) : List Condition → Option Condition
  | [] => none
  | [term] => some term
  | first :: second :: rest => some (logical connective first second rest)

/-- The condition that two values are equal. -/
def equals (left right : Operand) : Condition := comparison .equals left right

end Condition

/-- Reads all rows of a source. -/
def Select.simple (source : Source) (projection : Projection) : Select :=
  { projection, source, joins := [], filter := none, order := none, window := .all, aliasName := none }

/-! ## Writes -/

/-- Gives a column a value. -/
structure Assignment where
  column : TableColumn
  value : Operand

/-- A new row; the generated value of the column `returning` is handed back. -/
structure Insert where
  table : Table
  assignments : List Assignment
  returning : Option TableColumn

structure Update where
  table : Table
  assignments : List Assignment
  filter : Condition

structure Delete where
  table : Table
  filter : Condition

inductive Statement where
  | select (s : Select)
  | insert (i : Insert)
  | update (u : Update)
  | delete (d : Delete)

end ResourceSql.Sql
