/-
The fragments of trees. Besides the quoting of identifiers the dialects differ
in how a window of rows is written, and in how an insert hands back a generated
value and writes a row without values.
-/
import ResourceSql.Sql.Fragment

namespace ResourceSql.Sql

/-- Fragments behind a blank each. -/
def spaced (fragments : List Fragment) : List Fragment := .words " " :: fragments

/-- Sequences of fragments with a separator between them. -/
def separated (separator : String) : List (List Fragment) → List Fragment
  | [] => []
  | [fragments] => fragments
  | fragments :: rest => fragments ++ .words separator :: separated separator rest

/-- Fragments in brackets. -/
def bracketed (fragments : List Fragment) : List Fragment :=
  .words "(" :: (fragments ++ [.words ")"])

/-- A word with an alias. -/
def aliasFragments : Option String → List Fragment
  | none => []
  | some aliasName => [.words " AS ", .words aliasName]

/-- The alias and the point before the name of a column. -/
def qualifier : Option String → List Fragment
  | none => []
  | some aliasName => [.words aliasName, .words "."]

namespace Table

def fragments (t : Table) : List Fragment :=
  (match t.schema with
    | none => []
    | some schema => [.identifier schema, .words "."]) ++
  .identifier t.name :: aliasFragments t.aliasName

end Table

namespace TableColumn

def fragments (c : TableColumn) : List Fragment := qualifier c.tableAlias ++ [.identifier c.name]

end TableColumn

namespace Column

def fragments (c : Column) : List Fragment := qualifier c.aliasName ++ [.identifier c.name]

end Column

namespace Join

def fragments (j : Join) : List Fragment :=
  .words (match j.kind with
    | .inner => "INNER JOIN "
    | .left => "LEFT JOIN ") ::
  (j.table.fragments ++ .words " ON " :: j.outer.fragments ++ .words " = " :: j.inner.fragments)

end Join

namespace Projection

def fragments : Projection → List Fragment
  | columns cs => separated ", " (cs.map Column.fragments)
  | one => [.words "1"]
  | count => [.words "COUNT(*)"]

end Projection

/-- A number as it stands. -/
def numberFragment (n : Nat) : Fragment := .words (String.ofList (Digits.ofNat n))

/-- A word before a number, if there is one. -/
def countClause (word : String) : Option Nat → List Fragment
  | none => []
  | some n => [.words word, numberFragment n]

/-- The number of rows that stands for all of them, where a limit has to be given. -/
def unlimited : Nat := Nat.pow 2 64 - 1

/-- A window behind a select, which has an order already if `ordered`. -/
def windowFragments (d : Dialect) (ordered : Bool) (w : Window) : List Fragment :=
  if w.isAll then []
  else
    match d with
    | .postgreSql => countClause " LIMIT " w.limit ++ countClause " OFFSET " w.offset
    | .mySql =>
      countClause " LIMIT " (some (w.limit.getD unlimited)) ++ countClause " OFFSET " w.offset
    | .sqlServer =>
      (if ordered then [] else [.words " ORDER BY (SELECT NULL)"]) ++
      [.words " OFFSET ", numberFragment (w.offset.getD 0), .words " ROWS"] ++
      match w.limit with
      | none => []
      | some n => [.words " FETCH NEXT ", numberFragment n, .words " ROWS ONLY"]

/-- What is added to an order that descends. -/
def direction (ascending : Bool) : List Fragment := if ascending then [] else [.words " DESC"]

mutual

def Select.fragments (d : Dialect) : Select → List Fragment
  | ⟨projection, source, joins, filter, order, window, _⟩ =>
    .words "SELECT " :: projection.fragments ++ spaced (source.clause d) ++
      joins.flatMap (fun j => spaced j.fragments) ++ filterFragments d filter ++
      orderFragments d order ++ windowFragments d order.isSome window

/-- The clause that names the source. A subquery stands in brackets before its alias. -/
def Source.clause (d : Dialect) : Source → List Fragment
  | .table t => .words "FROM " :: t.fragments
  | .select s => .words "FROM " :: bracketed (s.fragments d) ++ aliasFragments s.aliasName

def filterFragments (d : Dialect) : Option Condition → List Fragment
  | none => []
  | some c => spaced (.words "WHERE " :: c.fragments d)

def orderFragments (d : Dialect) : Option (List OrderTerm) → List Fragment
  | none => []
  | some terms => spaced (.words "ORDER BY " :: separated ", " (orderTerms d terms))

def orderTerms (d : Dialect) : List OrderTerm → List (List Fragment)
  | [] => []
  | term :: terms => term.fragments d :: orderTerms d terms

def OrderTerm.fragments (d : Dialect) : OrderTerm → List Fragment
  | .column c ascending => c.fragments ++ direction ascending
  | .count s ascending => bracketed (s.fragments d) ++ direction ascending

def Condition.fragments (d : Dialect) : Condition → List Fragment
  | .not child => .words "NOT " :: bracketed (child.fragments d)
  | .logical connective first second rest =>
    separated (" " ++ connective.word ++ " ")
      (bracketed (first.fragments d) :: bracketed (second.fragments d) :: bracketedTerms d rest)
  | .comparison .equals left .null => left.fragments d ++ [.words " IS NULL"]
  | .comparison .equals .null right => right.fragments d ++ [.words " IS NULL"]
  | .comparison operator left right =>
    left.fragments d ++ .words (" " ++ operator.sign ++ " ") :: right.fragments d
  | .like column _ pattern => column.fragments ++ [.words " LIKE ", .parameter pattern]
  | .isIn column values =>
    column.fragments ++ .words " IN " :: bracketed (separated ", " (operandTerms d values))
  | .exists select => .words "EXISTS " :: bracketed (select.fragments d)

def bracketedTerms (d : Dialect) : List Condition → List (List Fragment)
  | [] => []
  | term :: terms => bracketed (term.fragments d) :: bracketedTerms d terms

def Operand.fragments (d : Dialect) : Operand → List Fragment
  | .column c => c.fragments
  | .parameter p => [.parameter p]
  | .null => [.words "NULL"]
  | .count select => bracketed (select.fragments d)

def operandTerms (d : Dialect) : List Operand → List (List Fragment)
  | [] => []
  | operand :: operands => operand.fragments d :: operandTerms d operands

end

namespace Assignment

def fragments (d : Dialect) (a : Assignment) : List Fragment :=
  a.column.fragments ++ .words " = " :: a.value.fragments d

end Assignment

namespace Insert

/-- What stands between the columns and the values to hand a generated value back. -/
def output (d : Dialect) (returning : Option TableColumn) : List Fragment :=
  match d, returning with
  | .sqlServer, some column => [.words " OUTPUT INSERTED.", .identifier column.name]
  | _, _ => []

/-- What stands at the end to hand a generated value back. -/
def ending (d : Dialect) (returning : Option TableColumn) : List Fragment :=
  match d, returning with
  | .postgreSql, some column => .words " RETURNING " :: column.fragments
  | .mySql, some _ => [.words "; SELECT LAST_INSERT_ID()"]
  | _, _ => []

def fragments (d : Dialect) (i : Insert) : List Fragment :=
  .words "INSERT INTO " :: i.table.fragments ++
  (match i.assignments, d with
    | [], .mySql => [.words " () VALUES ()"]
    | [], _ => output d i.returning ++ [.words " DEFAULT VALUES"]
    | assignments, _ =>
      .words " " :: bracketed (separated ", " (assignments.map (·.column.fragments))) ++
      output d i.returning ++
      .words " VALUES " :: bracketed (separated ", " (assignments.map (·.value.fragments d)))) ++
  ending d i.returning

end Insert

namespace Update

def fragments (d : Dialect) (u : Update) : List Fragment :=
  .words "UPDATE " :: u.table.fragments ++
  .words " SET " :: separated ", " (u.assignments.map (·.fragments d)) ++
  filterFragments d (some u.filter)

end Update

namespace Delete

def fragments (d : Dialect) (x : Delete) : List Fragment :=
  .words "DELETE FROM " :: x.table.fragments ++ filterFragments d (some x.filter)

end Delete

namespace Statement

def fragments (d : Dialect) : Statement → List Fragment
  | select s => s.fragments d
  | insert i => i.fragments d
  | update u => u.fragments d
  | delete x => x.fragments d

def command (d : Dialect) (s : Statement) : Command := .ofFragments d (s.fragments d)

end Statement

end ResourceSql.Sql
