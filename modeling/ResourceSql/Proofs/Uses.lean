/-
What the parameters of a statement are used for. Going through a statement in the
order in which it is written meets each placeholder once, with what it is compared
with, matched against or assigned to (`Sql.Statement.uses`); no placeholder is
missed (`Sql.Statement.parameters_eq`). The columns that are met there belong to
the tables that the statement names (`Sql.Statement.tables`).
-/
import ResourceSql.Proofs.Names

namespace ResourceSql.Sql

/-- The column of a table that a column stands for. -/
def Column.stored : Column → TableColumn
  | .ofTable c => c
  | .ofSelect c => c.selected

/-- What a placeholder meets. -/
inductive Role where
  | compared (column : TableColumn)
  /-- It is compared with a number of rows. -/
  | counted
  | listed (column : TableColumn)
  | matched (column : TableColumn)
  | assigned (column : TableColumn)
  /-- There is nothing that could tell its type. -/
  | alone
  deriving DecidableEq

/-- A placeholder where it stands. -/
structure Use where
  parameter : Parameter
  role : Role
  deriving DecidableEq

/-- What a placeholder on the other side of a comparison meets. -/
def Operand.role : Operand → Role
  | .column c => .compared c.stored
  | .count _ => .counted
  | .parameter _ | .null => .alone

/-! ## Placeholders with what they meet -/

mutual

def Select.uses : Select → List Use
  | ⟨_, source, _, filter, order, _, _⟩ => source.uses ++ (filterUses filter ++ orderUses order)

def Source.uses : Source → List Use
  | .table _ => []
  | .select s => s.uses

def filterUses : Option Condition → List Use
  | none => []
  | some c => c.uses

def orderUses : Option (List OrderTerm) → List Use
  | none => []
  | some terms => termUses terms

def termUses : List OrderTerm → List Use
  | [] => []
  | term :: terms => term.uses ++ termUses terms

def OrderTerm.uses : OrderTerm → List Use
  | .column _ _ => []
  | .count s _ => s.uses

def Condition.uses : Condition → List Use
  | .not child => child.uses
  | .logical _ first second rest => first.uses ++ second.uses ++ conditionUses rest
  | .comparison _ left right => left.uses right.role ++ right.uses left.role
  | .like column _ pattern => [⟨pattern, .matched column.stored⟩]
  | .isIn column values => operandUses (.listed column.stored) values
  | .exists select => select.uses

def conditionUses : List Condition → List Use
  | [] => []
  | c :: cs => c.uses ++ conditionUses cs

def Operand.uses (role : Role) : Operand → List Use
  | .column _ | .null => []
  | .parameter p => [⟨p, role⟩]
  | .count select => select.uses

def operandUses (role : Role) : List Operand → List Use
  | [] => []
  | o :: os => o.uses role ++ operandUses role os

end

/-- The placeholders of a statement, as they come from left to right. -/
def Statement.uses : Statement → List Use
  | .select s => s.uses
  | .insert i => i.assignments.flatMap fun a => a.value.uses (.assigned a.column)
  | .update u => (u.assignments.flatMap fun a => a.value.uses (.assigned a.column)) ++ u.filter.uses
  | .delete x => x.filter.uses

/-- What a select is called does not matter. -/
theorem Select.uses_named (s : Select) (aliasName : Option String) :
    Select.uses { s with aliasName } = s.uses := by
  cases s
  rfl

theorem conditionUses_eq_flatMap (cs : List Condition) :
    conditionUses cs = cs.flatMap Condition.uses :=
  eq_flatMap_of_steps rfl (fun _ _ => rfl) cs

theorem operandUses_eq_flatMap (role : Role) (os : List Operand) :
    operandUses role os = os.flatMap (Operand.uses role) :=
  eq_flatMap_of_steps rfl (fun _ _ => rfl) os

theorem termUses_eq_flatMap (terms : List OrderTerm) :
    termUses terms = terms.flatMap OrderTerm.uses :=
  eq_flatMap_of_steps rfl (fun _ _ => rfl) terms

theorem filterUses_eq (filter : Option Condition) :
    filterUses filter = filter.toList.flatMap Condition.uses := by
  cases filter <;> simp [filterUses]

theorem uses_logical (connective : Connective) (first second : Condition) (rest : List Condition) :
    (Condition.logical connective first second rest).uses =
      (first :: second :: rest).flatMap Condition.uses := by
  simp [Condition.uses, conditionUses_eq_flatMap]

theorem uses_conjunction? (cs : List Condition) :
    filterUses (conjunction? cs) = cs.flatMap Condition.uses := by
  rw [filterUses_eq]
  exact flatMap_conjunction? (uses_logical .and) cs

/-! ## No placeholder is missed -/

section

variable (d : Dialect)

mutual

theorem Select.parameters_eq : (s : Select) →
    parametersOf (s.fragments d) = s.uses.map (·.parameter)
  | ⟨projection, source, joins, filter, order, window, aliasName⟩ => by
    rw [parametersOf_select]
    simp only [Select.uses, List.map_append, Source.parameters_eq source,
      parameters_filter_eq filter, parameters_order_eq order]

theorem Source.parameters_eq : (s : Source) →
    parametersOf (s.clause d) = s.uses.map (·.parameter)
  | .table t => parametersOf_tableClause d t
  | .select s => by rw [parametersOf_selectClause, Source.uses, Select.parameters_eq s]

theorem parameters_filter_eq : (filter : Option Condition) →
    parametersOf (filterFragments d filter) = (filterUses filter).map (·.parameter)
  | none => by simp [parametersOf_filter, filterUses]
  | some c => by simp [parametersOf_filter, filterUses, Condition.parameters_eq c]

theorem parameters_order_eq : (order : Option (List OrderTerm)) →
    parametersOf (orderFragments d order) = (orderUses order).map (·.parameter)
  | none => by simp [orderFragments, orderUses]
  | some terms => by rw [parametersOf_order, orderUses, parameters_terms_eq terms]

theorem parameters_terms_eq : (terms : List OrderTerm) →
    (terms.flatMap fun t => parametersOf (t.fragments d)) = (termUses terms).map (·.parameter)
  | [] => rfl
  | term :: terms => by
    simp [termUses, OrderTerm.parameters_eq term, parameters_terms_eq terms]

theorem OrderTerm.parameters_eq : (term : OrderTerm) →
    parametersOf (term.fragments d) = term.uses.map (·.parameter)
  | .column c ascending => by simp [OrderTerm.fragments, OrderTerm.uses]
  | .count s ascending => by simp [OrderTerm.fragments, OrderTerm.uses, Select.parameters_eq s]

theorem Condition.parameters_eq : (c : Condition) →
    parametersOf (c.fragments d) = c.uses.map (·.parameter)
  | .not child => by simp [Condition.fragments, Condition.uses, Condition.parameters_eq child]
  | .logical connective first second rest => by
    rw [parametersOf_logical]
    simp [Condition.uses, Condition.parameters_eq first, Condition.parameters_eq second,
      parameters_conditions_eq rest]
  | .comparison operator left right => by
    rw [parametersOf_comparison, Condition.uses, List.map_append,
      Operand.parameters_eq right.role left, Operand.parameters_eq left.role right]
  | .like column place pattern => by simp [Condition.fragments, Condition.uses]
  | .isIn column values => by
    rw [parametersOf_isIn, Condition.uses, parameters_operands_eq (.listed column.stored) values]
  | .exists select => by simp [Condition.fragments, Condition.uses, Select.parameters_eq select]

theorem parameters_conditions_eq : (cs : List Condition) →
    (cs.flatMap fun c => parametersOf (c.fragments d)) = (conditionUses cs).map (·.parameter)
  | [] => rfl
  | c :: cs => by simp [conditionUses, Condition.parameters_eq c, parameters_conditions_eq cs]

theorem Operand.parameters_eq (role : Role) : (o : Operand) →
    parametersOf (o.fragments d) = (o.uses role).map (·.parameter)
  | .column c => by simp [Operand.fragments, Operand.uses]
  | .parameter p => by simp [Operand.fragments, Operand.uses]
  | .null => by simp [Operand.fragments, Operand.uses]
  | .count select => by simp [Operand.fragments, Operand.uses, Select.parameters_eq select]

theorem parameters_operands_eq (role : Role) : (os : List Operand) →
    (os.flatMap fun o => parametersOf (o.fragments d)) = (operandUses role os).map (·.parameter)
  | [] => rfl
  | o :: os => by
    simp [operandUses, Operand.parameters_eq role o, parameters_operands_eq role os]

end

theorem parameters_assignments_eq (assignments : List Assignment) :
    (assignments.flatMap fun a => parametersOf (a.value.fragments d)) =
      (assignments.flatMap fun a => a.value.uses (.assigned a.column)).map (·.parameter) := by
  simp only [List.map_flatMap, ← Operand.parameters_eq d]

/-- The placeholders that are written are those that are used. -/
theorem Statement.parameters_eq (s : Statement) :
    parametersOf (s.fragments d) = s.uses.map (·.parameter) := by
  cases s with
  | select s => exact s.parameters_eq d
  | insert i =>
    rw [Statement.fragments, parametersOf_insert, Statement.uses, parameters_assignments_eq]
  | update u =>
    rw [Statement.fragments, parametersOf_update, Statement.uses, List.map_append,
      parameters_assignments_eq, u.filter.parameters_eq d]
  | delete x =>
    rw [Statement.fragments, parametersOf_delete, Statement.uses, x.filter.parameters_eq d]

end

/-! ## Tables -/

mutual

def Select.tables : Select → List Table
  | ⟨_, source, joins, filter, order, _, _⟩ =>
    source.tables ++ (joins.map (·.table) ++ (filterTables filter ++ orderTables order))

def Source.tables : Source → List Table
  | .table t => [t]
  | .select s => s.tables

def filterTables : Option Condition → List Table
  | none => []
  | some c => c.tables

def orderTables : Option (List OrderTerm) → List Table
  | none => []
  | some terms => termTables terms

def termTables : List OrderTerm → List Table
  | [] => []
  | term :: terms => term.tables ++ termTables terms

def OrderTerm.tables : OrderTerm → List Table
  | .column _ _ => []
  | .count s _ => s.tables

def Condition.tables : Condition → List Table
  | .not child => child.tables
  | .logical _ first second rest => first.tables ++ second.tables ++ conditionTables rest
  | .comparison _ left right => left.tables ++ right.tables
  | .like _ _ _ => []
  | .isIn _ values => operandTables values
  | .exists select => select.tables

def conditionTables : List Condition → List Table
  | [] => []
  | c :: cs => c.tables ++ conditionTables cs

def Operand.tables : Operand → List Table
  | .column _ | .parameter _ | .null => []
  | .count select => select.tables

def operandTables : List Operand → List Table
  | [] => []
  | o :: os => o.tables ++ operandTables os

end

/-- The tables that a statement reads from or changes, also in the selects inside of it. -/
def Statement.tables : Statement → List Table
  | .select s => s.tables
  | .insert i => i.table :: i.assignments.flatMap (·.value.tables)
  | .update u => u.table :: (u.assignments.flatMap (·.value.tables) ++ u.filter.tables)
  | .delete x => x.table :: x.filter.tables

theorem Select.tables_named (s : Select) (aliasName : Option String) :
    Select.tables { s with aliasName } = s.tables := by
  cases s
  rfl

theorem conditionTables_eq_flatMap (cs : List Condition) :
    conditionTables cs = cs.flatMap Condition.tables :=
  eq_flatMap_of_steps rfl (fun _ _ => rfl) cs

theorem filterTables_eq (filter : Option Condition) :
    filterTables filter = filter.toList.flatMap Condition.tables := by
  cases filter <;> simp [filterTables]

theorem tables_logical (connective : Connective) (first second : Condition)
    (rest : List Condition) : (Condition.logical connective first second rest).tables =
      (first :: second :: rest).flatMap Condition.tables := by
  simp [Condition.tables, conditionTables_eq_flatMap]

theorem tables_conjunction? (cs : List Condition) :
    filterTables (conjunction? cs) = cs.flatMap Condition.tables := by
  rw [filterTables_eq]
  exact flatMap_conjunction? (tables_logical .and) cs

end ResourceSql.Sql
