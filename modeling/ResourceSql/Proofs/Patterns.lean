/-
Statements without the values of their patterns. Taking these values out leaves
the shape of a tree as it is, and the uses of its placeholders too but for what
is bound as a pattern (`Statement.uses_unpatterned`). Flattened conjunctions keep
their terms (`unpatterned_conjunction?`).
-/
import ResourceSql.Proofs.Clauses
import ResourceSql.Proofs.Grammar
import ResourceSql.Proofs.Uses

namespace ResourceSql.Sql

mutual

def Select.unpatterned : Select → Select
  | ⟨projection, source, joins, filter, order, window, aliasName⟩ =>
    ⟨projection, source.unpatterned, joins, unpatternedFilter filter, unpatternedOrder order,
      window, aliasName⟩

def Source.unpatterned : Source → Source
  | .table t => .table t
  | .select s => .select s.unpatterned

def unpatternedFilter : Option Condition → Option Condition
  | none => none
  | some c => some c.unpatterned

def unpatternedOrder : Option (List OrderTerm) → Option (List OrderTerm)
  | none => none
  | some terms => some (unpatternedTerms terms)

def unpatternedTerms : List OrderTerm → List OrderTerm
  | [] => []
  | term :: terms => term.unpatterned :: unpatternedTerms terms

def OrderTerm.unpatterned : OrderTerm → OrderTerm
  | .column c ascending => .column c ascending
  | .count s ascending => .count s.unpatterned ascending

/-- The condition, in which the placeholders of patterns are there but not what is bound to them. -/
def Condition.unpatterned : Condition → Condition
  | .not child => .not child.unpatterned
  | .logical connective first second rest =>
    .logical connective first.unpatterned second.unpatterned (unpatternedConditions rest)
  | .comparison operator left right => .comparison operator left.unpatterned right.unpatterned
  | .like column place pattern => .like column place pattern.visible
  | .isIn column values => .isIn column (unpatternedOperands values)
  | .exists select => .exists select.unpatterned

def unpatternedConditions : List Condition → List Condition
  | [] => []
  | c :: cs => c.unpatterned :: unpatternedConditions cs

def Operand.unpatterned : Operand → Operand
  | .column c => .column c
  | .parameter p => .parameter p
  | .null => .null
  | .count select => .count select.unpatterned

def unpatternedOperands : List Operand → List Operand
  | [] => []
  | o :: os => o.unpatterned :: unpatternedOperands os

end

/-- The statement without the values of its patterns. -/
def Statement.unpatterned : Statement → Statement
  | select s => select s.unpatterned
  | insert i => insert { i with
      assignments := i.assignments.map fun a => ⟨a.column, a.value.unpatterned⟩ }
  | update u => update ⟨u.table, u.assignments.map fun a => ⟨a.column, a.value.unpatterned⟩,
      u.filter.unpatterned⟩
  | delete x => delete ⟨x.table, x.filter.unpatterned⟩

theorem unpatternedConditions_eq_map (cs : List Condition) :
    unpatternedConditions cs = cs.map Condition.unpatterned :=
  eq_map_of_steps rfl (fun _ _ => rfl) cs

theorem unpatternedFilter_eq_map (filter : Option Condition) :
    unpatternedFilter filter = filter.map Condition.unpatterned := by
  cases filter <;> rfl

theorem keepsConjunctions_unpatterned : KeepsConjunctions Condition.unpatterned := by
  refine ⟨fun connective first second rest => ?_, fun c other => ?_⟩
  · rw [Condition.unpatterned, unpatternedConditions_eq_map]
  · cases c with
    | logical connective =>
      cases connective <;> simp_all [Condition.unpatterned, Condition.isConjunction]
    | _ => rfl

theorem unpatterned_conjunction? (cs : List Condition) :
    unpatternedFilter (conjunction? cs) = conjunction? (cs.map Condition.unpatterned) := by
  rw [unpatternedFilter_eq_map, map_conjunction? keepsConjunctions_unpatterned]

/-! ## Uses -/

def Role.isMatched : Role → Bool
  | matched _ => true
  | _ => false

/-- The name and the value that a use binds. -/
def Use.binding (u : Use) : String × Value := (u.parameter.name, u.parameter.value)

/-- A use without the value of the placeholder, if that is a pattern. -/
def Use.unpatterned (u : Use) : Use :=
  if u.role.isMatched = true then { u with parameter := u.parameter.visible } else u

theorem Use.name_unpatterned (u : Use) : u.unpatterned.parameter.name = u.parameter.name := by
  unfold unpatterned
  split <;> rfl

theorem Use.role_unpatterned (u : Use) : u.unpatterned.role = u.role := by
  unfold unpatterned
  split <;> rfl

/-- What is no pattern is bound as it is. -/
theorem Use.eq_of_unpatterned {u u' : Use} (same : u.unpatterned = u'.unpatterned)
    (plain : u.role.isMatched = false) : u = u' := by
  have role : u'.role = u.role := by rw [← u.role_unpatterned, same, u'.role_unpatterned]
  have plain' : u'.role.isMatched = false := by rw [role, plain]
  simpa [unpatterned, plain, plain'] using same

theorem Operand.role_unpatterned (o : Operand) : o.unpatterned.role = o.role := by
  cases o <;> rfl

theorem Operand.isMatched_role (o : Operand) : o.role.isMatched = false := by
  cases o <;> rfl

mutual

theorem Select.uses_unpatterned : (s : Select) → s.unpatterned.uses = s.uses.map Use.unpatterned
  | ⟨projection, source, joins, filter, order, window, aliasName⟩ => by
    simp only [Select.unpatterned, Select.uses, List.map_append, Source.uses_unpatterned source,
      uses_unpatternedFilter filter, uses_unpatternedOrder order]

theorem Source.uses_unpatterned : (s : Source) → s.unpatterned.uses = s.uses.map Use.unpatterned
  | .table _ => rfl
  | .select s => Select.uses_unpatterned s

theorem uses_unpatternedFilter : (filter : Option Condition) →
    filterUses (unpatternedFilter filter) = (filterUses filter).map Use.unpatterned
  | none => rfl
  | some c => Condition.uses_unpatterned c

theorem uses_unpatternedOrder : (order : Option (List OrderTerm)) →
    orderUses (unpatternedOrder order) = (orderUses order).map Use.unpatterned
  | none => rfl
  | some terms => uses_unpatternedTerms terms

theorem uses_unpatternedTerms : (terms : List OrderTerm) →
    termUses (unpatternedTerms terms) = (termUses terms).map Use.unpatterned
  | [] => rfl
  | term :: terms => by
    simp only [unpatternedTerms, termUses, List.map_append, OrderTerm.uses_unpatterned term,
      uses_unpatternedTerms terms]

theorem OrderTerm.uses_unpatterned : (term : OrderTerm) →
    term.unpatterned.uses = term.uses.map Use.unpatterned
  | .column _ _ => rfl
  | .count s _ => Select.uses_unpatterned s

theorem Condition.uses_unpatterned : (c : Condition) →
    c.unpatterned.uses = c.uses.map Use.unpatterned
  | .not child => Condition.uses_unpatterned child
  | .logical connective first second rest => by
    simp only [Condition.unpatterned, Condition.uses, List.map_append,
      Condition.uses_unpatterned first, Condition.uses_unpatterned second,
      uses_unpatternedConditions rest]
  | .comparison operator left right => by
    simp only [Condition.unpatterned, Condition.uses, List.map_append, Operand.role_unpatterned,
      Operand.uses_unpatterned right.isMatched_role left,
      Operand.uses_unpatterned left.isMatched_role right]
  | .like column place pattern => rfl
  | .isIn column values => uses_unpatternedOperands rfl values
  | .exists select => Select.uses_unpatterned select

theorem uses_unpatternedConditions : (cs : List Condition) →
    conditionUses (unpatternedConditions cs) = (conditionUses cs).map Use.unpatterned
  | [] => rfl
  | c :: cs => by
    simp only [unpatternedConditions, conditionUses, List.map_append, Condition.uses_unpatterned c,
      uses_unpatternedConditions cs]

theorem Operand.uses_unpatterned {role : Role} (plain : role.isMatched = false) : (o : Operand) →
    o.unpatterned.uses role = (o.uses role).map Use.unpatterned
  | .column c => rfl
  | .parameter p => by simp [Operand.unpatterned, Operand.uses, Use.unpatterned, plain]
  | .null => rfl
  | .count select => Select.uses_unpatterned select

theorem uses_unpatternedOperands {role : Role} (plain : role.isMatched = false) :
    (os : List Operand) →
      operandUses role (unpatternedOperands os) = (operandUses role os).map Use.unpatterned
  | [] => rfl
  | o :: os => by
    simp only [unpatternedOperands, operandUses, List.map_append, Operand.uses_unpatterned plain o,
      uses_unpatternedOperands plain os]

end

theorem Statement.uses_unpatterned (s : Statement) :
    s.unpatterned.uses = s.uses.map Use.unpatterned := by
  have assigned (assignments : List Assignment) :
      ((assignments.map fun a => (⟨a.column, a.value.unpatterned⟩ : Assignment)).flatMap fun a =>
        a.value.uses (.assigned a.column)) =
      (assignments.flatMap fun a => a.value.uses (.assigned a.column)).map Use.unpatterned := by
    rw [List.flatMap_map, List.map_flatMap]
    exact congrArg assignments.flatMap (funext fun a => a.value.uses_unpatterned rfl)
  cases s with
  | select s => exact s.uses_unpatterned
  | insert i => exact assigned i.assignments
  | update u =>
    rw [unpatterned, uses, uses, assigned, u.filter.uses_unpatterned, List.map_append]
  | delete x => exact x.filter.uses_unpatterned

end ResourceSql.Sql
