/-
The nodes of statement trees, taken one by one: each has a kind and a text of
its own.
-/
import ResourceSql.Sql.Conjunction
import ResourceSql.Sql.Rendering

namespace ResourceSql.Sql

inductive Node where
  | statement (s : Statement)
  | table (t : Table)
  | sourceClause (s : Source)
  | join (j : Join)
  | column (c : Column)
  | projection (p : Projection)
  | filterClause (c : Condition)
  | condition (c : Condition)
  | operand (o : Operand)
  | orderClause (terms : List OrderTerm)
  | orderTerm (t : OrderTerm)
  | assignment (a : Assignment)

namespace Node

/-- The kind of a node. -/
def kind : Node → String
  | statement (.select _) => "select"
  | statement (.insert _) => "insert"
  | statement (.update _) => "update"
  | statement (.delete _) => "delete"
  | table _ => "table"
  | sourceClause _ => "from"
  | join _ => "join"
  | column (.ofTable _) => "column_in_table"
  | column (.ofSelect _) => "column_in_select"
  | projection (.columns _) => "column_selector"
  | projection .one => "one_selector"
  | projection .count => "count_selector"
  | filterClause _ => "where"
  | condition (.not _) => "not"
  | condition (.logical ..) => "logical"
  | condition (.comparison ..) => "comparison"
  | condition (.like ..) => "like"
  | condition (.isIn ..) => "in"
  | condition (.exists _) => "exists"
  | operand (.column (.ofTable _)) => "column_in_table"
  | operand (.column (.ofSelect _)) => "column_in_select"
  | operand (.parameter _) => "parameter"
  | operand .null => "null_constant"
  | operand (.count _) => "count"
  | orderClause _ => "order_by"
  | orderTerm (.column ..) => "order_by_column"
  | orderTerm (.count ..) => "order_by_count"
  | assignment _ => "column_assignment"

def fragments (d : Dialect) : Node → List Fragment
  | statement s => s.fragments d
  | table t => t.fragments
  | sourceClause s => s.clause d
  | join j => j.fragments
  | column c => c.fragments
  | projection p => p.fragments
  | filterClause c => .words "WHERE " :: c.fragments d
  | condition c => c.fragments d
  | operand o => o.fragments d
  | orderClause terms => .words "ORDER BY " :: separated ", " (orderTerms d terms)
  | orderTerm t => t.fragments d
  | assignment a => a.fragments d

def command (d : Dialect) (n : Node) : Command := .ofFragments d (n.fragments d)

/-- The text for people: that of PostgreSQL, and for a parameter its name and its value. -/
def display : Node → String
  | operand (.parameter p) => p.value.assignment p.name
  | n => String.ofList (textOf .postgreSql (n.fragments .postgreSql))

/-- The terms that a node contributes to a conjunction; only conditions contribute any. -/
def conjuncts : Node → List Condition
  | condition c => c.terms
  | _ => []

end Node

def Condition.display (c : Condition) : String := (Node.condition c).display

end ResourceSql.Sql
