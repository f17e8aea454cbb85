/-
What a text carries of a statement, fragment by fragment. The fragments of the
visible part of a tree are those of the tree itself without the values of
parameters (`Condition.fragments_visible`), so that trees with the same visible
part have one text and the same placeholders. The visible part of a flattened
conjunction is the flattened visible part (`visible_conjunction?`).
-/
import ResourceSql.Proofs.Grammar
import ResourceSql.Proofs.Names

namespace ResourceSql.Sql

/-! ## Visible fragments -/

/-- A fragment without the value that is bound. -/
def Fragment.visible : Fragment → Fragment
  | parameter p => parameter p.visible
  | f => f

theorem Fragment.chars_visible (d : Dialect) (f : Fragment) : f.visible.chars d = f.chars d := by
  cases f <;> rfl

/-- Fragments without the values that are bound. -/
def visibleFragments (fs : List Fragment) : List Fragment := fs.map Fragment.visible

theorem textOf_visibleFragments (d : Dialect) (fs : List Fragment) :
    textOf d (visibleFragments fs) = textOf d fs := by
  simp [textOf, visibleFragments, List.flatMap_map, Fragment.chars_visible]

/-- The names of placeholders can be seen. -/
theorem names_visibleFragments (fs : List Fragment) :
    (parametersOf (visibleFragments fs)).map (·.name) = (parametersOf fs).map (·.name) := by
  induction fs with
  | nil => rfl
  | cons f fs ih =>
    cases f with
    | words text => exact ih
    | identifier name => exact ih
    | parameter p => exact congrArg (p.name :: ·) ih

@[simp] theorem visibleFragments_nil : visibleFragments [] = [] := rfl

@[simp] theorem visibleFragments_words (w : String) (fs : List Fragment) :
    visibleFragments (.words w :: fs) = .words w :: visibleFragments fs := rfl

@[simp] theorem visibleFragments_identifier (name : String) (fs : List Fragment) :
    visibleFragments (.identifier name :: fs) = .identifier name :: visibleFragments fs := rfl

@[simp] theorem visibleFragments_parameter (p : Parameter) (fs : List Fragment) :
    visibleFragments (.parameter p :: fs) = .parameter p.visible :: visibleFragments fs := rfl

@[simp] theorem visibleFragments_append (fs gs : List Fragment) :
    visibleFragments (fs ++ gs) = visibleFragments fs ++ visibleFragments gs := List.map_append

@[simp] theorem visibleFragments_bracketed (fs : List Fragment) :
    visibleFragments (bracketed fs) = bracketed (visibleFragments fs) := by simp [bracketed]

@[simp] theorem visibleFragments_spaced (fs : List Fragment) :
    visibleFragments (spaced fs) = spaced (visibleFragments fs) := rfl

@[simp] theorem visibleFragments_separated (separator : String) (fss : List (List Fragment)) :
    visibleFragments (separated separator fss) = separated separator (fss.map visibleFragments) := by
  induction fss with
  | nil => rfl
  | cons fs fss ih =>
    cases fss with
    | nil => rfl
    | cons gs fss =>
      simp only [separated, visibleFragments_append, visibleFragments_words, ih, List.map_cons]

/-- Fragments without parameters can be seen as they are. -/
theorem visibleFragments_of_none {fs : List Fragment} (none : parametersOf fs = []) :
    visibleFragments fs = fs := by
  induction fs with
  | nil => rfl
  | cons f fs ih =>
    cases f with
    | words text => exact congrArg (Fragment.words text :: ·) (ih none)
    | identifier name => exact congrArg (Fragment.identifier name :: ·) (ih none)
    | parameter p => cases none

/-! ## Fragments of visible parts -/

@[simp] theorem Column.fragments_visible (c : Column) : c.visible.fragments = c.fragments := rfl

@[simp] theorem Projection.fragments_visible (p : Projection) : p.visible.fragments = p.fragments := by
  cases p with
  | one | count => rfl
  | columns cs =>
    rw [Projection.visible, Projection.fragments, Projection.fragments, List.map_map]
    rfl

@[simp] theorem Join.fragments_visible (j : Join) : j.visible.fragments = j.fragments := rfl

@[simp] theorem windowFragments_visible (d : Dialect) (ordered : Bool) (w : Window) :
    windowFragments d ordered (w.visible d) = windowFragments d ordered w := by
  obtain ⟨limit, offset⟩ := w
  cases d with
  | postgreSql | mySql => cases limit <;> rfl
  | sqlServer => cases limit <;> cases offset <;> rfl

@[simp] theorem isSome_visibleOrder (d : Dialect) (order : Option (List OrderTerm)) :
    (visibleOrder d order).isSome = order.isSome := by
  cases order <;> rfl

theorem fragments_visibleComparison {d : Dialect} (operator : Comparison) {left right : Operand}
    (sameLeft : (left.visible d).fragments d = visibleFragments (left.fragments d))
    (sameRight : (right.visible d).fragments d = visibleFragments (right.fragments d)) :
    ((Condition.comparison operator left right).visible d).fragments d =
      visibleFragments ((Condition.comparison operator left right).fragments d) := by
  have isNull {o : Operand} (same : (o.visible d).fragments d = visibleFragments (o.fragments d)) :
      (Condition.comparison .equals (o.visible d) .null).fragments d =
        visibleFragments (o.fragments d ++ [.words " IS NULL"]) := by
    rw [Condition.fragments, visibleFragments_append, same]
    rfl
  have signed (sign : String) :
      (left.visible d).fragments d ++ .words sign :: (right.visible d).fragments d =
        visibleFragments (left.fragments d ++ .words sign :: right.fragments d) := by
    rw [visibleFragments_append, visibleFragments_words, sameLeft, sameRight]
  cases operator with
  | equals =>
    cases right with
    | null => cases left <;> exact isNull sameLeft
    | column _ | parameter _ | count _ =>
      cases left with
      | null => exact isNull sameRight
      | column _ | parameter _ | count _ => exact signed _
  | lessThan | lessOrEqual | greaterThan | greaterOrEqual => exact signed _

mutual

theorem Select.fragments_visible (d : Dialect) : (s : Select) →
    (s.visible d).fragments d = visibleFragments (s.fragments d)
  | ⟨projection, source, joins, filter, order, window, aliasName⟩ => by
    have joined : visibleFragments (joins.flatMap fun j => spaced j.fragments) =
        joins.flatMap fun j => spaced j.fragments := visibleFragments_of_none (by simp)
    have projected := visibleFragments_of_none projection.parametersOf_fragments
    have windowed := visibleFragments_of_none (parametersOf_windowFragments d order.isSome window)
    simp [Select.visible, Select.fragments, Source.clause_visible d source,
      fragments_visibleFilter d filter, fragments_visibleOrder d order, List.flatMap_map, joined,
      projected, windowed]

theorem Source.clause_visible (d : Dialect) : (s : Source) →
    (s.visible d).clause d = visibleFragments (s.clause d)
  | .table t => by
    have none : parametersOf ((Source.table t).clause d) = [] := parametersOf_tableClause d t
    rw [Source.visible, visibleFragments_of_none none]
  | .select s => by
    have aliased := visibleFragments_of_none (parametersOf_aliasFragments s.aliasName)
    simp [Source.visible, Source.clause, Select.fragments_named, Select.fragments_visible d s, aliased]

theorem fragments_visibleFilter (d : Dialect) : (filter : Option Condition) →
    filterFragments d (visibleFilter d filter) = visibleFragments (filterFragments d filter)
  | none => rfl
  | some c => by simp [visibleFilter, filterFragments, Condition.fragments_visible d c]

theorem fragments_visibleOrder (d : Dialect) : (order : Option (List OrderTerm)) →
    orderFragments d (visibleOrder d order) = visibleFragments (orderFragments d order)
  | none => rfl
  | some terms => by simp [visibleOrder, orderFragments, fragments_visibleTerms d terms]

theorem fragments_visibleTerms (d : Dialect) : (terms : List OrderTerm) →
    orderTerms d (visibleTerms d terms) = (orderTerms d terms).map visibleFragments
  | [] => rfl
  | t :: terms => by
    simp [visibleTerms, orderTerms, OrderTerm.fragments_visible d t, fragments_visibleTerms d terms]

theorem OrderTerm.fragments_visible (d : Dialect) : (t : OrderTerm) →
    (t.visible d).fragments d = visibleFragments (t.fragments d)
  | .column c ascending => by
    have none : parametersOf ((OrderTerm.column c ascending).fragments d) = [] := by
      simp [OrderTerm.fragments]
    rw [visibleFragments_of_none none]
    rfl
  | .count s ascending => by
    have directed := visibleFragments_of_none (parametersOf_direction ascending)
    simp [OrderTerm.visible, OrderTerm.fragments, Select.fragments_visible d s, directed]

theorem Condition.fragments_visible (d : Dialect) : (c : Condition) →
    (c.visible d).fragments d = visibleFragments (c.fragments d)
  | .not child => by
    simp [Condition.visible, Condition.fragments, Condition.fragments_visible d child]
  | .logical connective first second rest => by
    simp [Condition.visible, Condition.fragments, Condition.fragments_visible d first,
      Condition.fragments_visible d second, fragments_visibleConditions d rest]
  | .comparison operator left right =>
    fragments_visibleComparison operator (Operand.fragments_visible d left)
      (Operand.fragments_visible d right)
  | .like column place pattern => by
    have addressed := visibleFragments_of_none column.parametersOf_fragments
    simp [Condition.visible, Condition.fragments, addressed]
  | .isIn column values => by
    have addressed := visibleFragments_of_none column.parametersOf_fragments
    simp [Condition.visible, Condition.fragments, fragments_visibleOperands d values, addressed]
  | .exists select => by
    simp [Condition.visible, Condition.fragments, Select.fragments_visible d select]

theorem fragments_visibleConditions (d : Dialect) : (cs : List Condition) →
    bracketedTerms d (visibleConditions d cs) = (bracketedTerms d cs).map visibleFragments
  | [] => rfl
  | c :: cs => by
    simp [visibleConditions, bracketedTerms, Condition.fragments_visible d c,
      fragments_visibleConditions d cs]

theorem Operand.fragments_visible (d : Dialect) : (o : Operand) →
    (o.visible d).fragments d = visibleFragments (o.fragments d)
  | .column c => (visibleFragments_of_none c.parametersOf_fragments).symm
  | .parameter _ | .null => rfl
  | .count s => by simp [Operand.visible, Operand.fragments, Select.fragments_visible d s]

theorem fragments_visibleOperands (d : Dialect) : (os : List Operand) →
    operandTerms d (visibleOperands d os) = (operandTerms d os).map visibleFragments
  | [] => rfl
  | o :: os => by
    simp [visibleOperands, operandTerms, Operand.fragments_visible d o,
      fragments_visibleOperands d os]

end

theorem Select.visible_named (d : Dialect) (s : Select) (aliasName : Option String) :
    Select.visible d { s with aliasName } = s.visible d := by
  cases s
  rfl

/-! ## Visible parts of statements -/

def Assignment.visible (d : Dialect) (a : Assignment) : Assignment := ⟨a.column, a.value.visible d⟩

def Statement.visible (d : Dialect) : Statement → Statement
  | select s => select (s.visible d)
  | insert i => insert ⟨i.table, i.assignments.map (·.visible d), i.returning⟩
  | update u => update ⟨u.table, u.assignments.map (·.visible d), u.filter.visible d⟩
  | delete x => delete ⟨x.table, x.filter.visible d⟩

theorem Assignment.fragments_visible (d : Dialect) (a : Assignment) :
    (a.visible d).fragments d = visibleFragments (a.fragments d) := by
  have addressed := visibleFragments_of_none a.column.parametersOf_fragments
  simp [Assignment.visible, Assignment.fragments, Operand.fragments_visible, addressed]

theorem Insert.fragments_visible (d : Dialect) (i : Insert) :
    Insert.fragments d ⟨i.table, i.assignments.map (·.visible d), i.returning⟩ =
      visibleFragments (i.fragments d) := by
  obtain ⟨table, assignments, returning⟩ := i
  have stored := visibleFragments_of_none table.parametersOf_fragments
  have output := visibleFragments_of_none (parametersOf_output d returning)
  have ending := visibleFragments_of_none (parametersOf_ending d returning)
  cases assignments with
  | nil => cases d <;> simp [Insert.fragments, stored, output, ending]
  | cons a assignments =>
    have columns (a : Assignment) : visibleFragments a.column.fragments = a.column.fragments :=
      visibleFragments_of_none a.column.parametersOf_fragments
    simp [Insert.fragments, stored, output, ending, columns, Assignment.visible,
      Operand.fragments_visible, Function.comp_def]

theorem Statement.fragments_visible (d : Dialect) (s : Statement) :
    (s.visible d).fragments d = visibleFragments (s.fragments d) := by
  cases s with
  | select s => exact Select.fragments_visible d s
  | insert i => exact Insert.fragments_visible d i
  | update u =>
    have stored := visibleFragments_of_none u.table.parametersOf_fragments
    simp [Statement.visible, Statement.fragments, Update.fragments, filterFragments, stored,
      Assignment.fragments_visible, Condition.fragments_visible, Function.comp_def]
  | delete x =>
    have stored := visibleFragments_of_none x.table.parametersOf_fragments
    simp [Statement.visible, Statement.fragments, Delete.fragments, filterFragments, stored,
      Condition.fragments_visible]

/-! ## Visible parts of comparisons and conjunctions -/

/-- What can be seen of a comparison depends on what can be seen of its sides. -/
theorem visible_comparison {d : Dialect} (operator : Comparison) {left left' right right' : Operand}
    (sameLeft : left.visible d = left'.visible d) (sameRight : right.visible d = right'.visible d) :
    (Condition.comparison operator left right).visible d =
      (Condition.comparison operator left' right').visible d := by
  cases operator with
  | equals =>
    cases left <;> cases left' <;> simp_all [Condition.visible, Operand.visible]
  | _ => simp [Condition.visible, sameLeft, sameRight]

theorem keepsConjunctions_visible (d : Dialect) : KeepsConjunctions (Condition.visible d) := by
  refine ⟨fun connective first second rest => ?_, fun c other => ?_⟩
  · simp [Condition.visible, visibleConditions_eq_map]
  · cases c with
    | comparison operator left right =>
      cases operator <;> cases left <;> simp [Condition.visible, Condition.isConjunction]
    | logical connective => cases connective <;> simp_all [Condition.visible, Condition.isConjunction]
    | _ => simp [Condition.visible, Condition.isConjunction]

theorem visible_combine (d : Dialect) (connective : Connective) (cs : List Condition) :
    (Condition.combine connective cs).map (·.visible d) =
      Condition.combine connective (cs.map (·.visible d)) :=
  map_combine (keepsConjunctions_visible d) connective cs

/-- The visible part of a flattened conjunction is made of those of its terms. -/
theorem visible_conjunction? (d : Dialect) (cs : List Condition) :
    visibleFilter d (conjunction? cs) = conjunction? (cs.map (·.visible d)) := by
  rw [← map_conjunction? (keepsConjunctions_visible d)]
  cases conjunction? cs <;> rfl

end ResourceSql.Sql
