/-
Well-formed statements. A database refuses a list of values, an order, a
projection or an update that is empty; a `WHERE` clause is easier to read if its
conjunction is flat; and a subquery may only be sorted if a window depends on
it. Steps make nothing else (`wellFormed_condition`, by induction on the filter),
so that every statement of a request is well-formed at every depth
(`Request.wellFormed_of_compile`).
-/
import ResourceSql.Proofs.Commands
import ResourceSql.Proofs.Paging

namespace ResourceSql

namespace Sql

/-! ## Well-formed trees -/

def Projection.isWellFormed : Projection → Bool
  | .columns cs => !cs.isEmpty
  | .one | .count => true

/-- If the rows are sorted at all, a window depends on their order. -/
def Select.sortsForWindow (s : Select) : Bool := s.order.isNone || !s.window.isAll

mutual

/-- At every depth of a select, nothing is empty that may not be, conditions of whole selects are
flat, and subqueries are only sorted for a window. -/
def Select.isWellFormed : Select → Bool
  | ⟨projection, source, _, filter, order, _, _⟩ =>
    projection.isWellFormed && source.isWellFormed && filterWellFormed filter && orderWellFormed order

def Source.isWellFormed : Source → Bool
  | .table _ => true
  | .select s => s.sortsForWindow && s.isWellFormed

def filterWellFormed : Option Condition → Bool
  | none => true
  | some c => c.isFlat && c.isWellFormed

def orderWellFormed : Option (List OrderTerm) → Bool
  | none => true
  | some terms => !terms.isEmpty && termsWellFormed terms

def termsWellFormed : List OrderTerm → Bool
  | [] => true
  | term :: terms => term.isWellFormed && termsWellFormed terms

def OrderTerm.isWellFormed : OrderTerm → Bool
  | .column _ _ => true
  | .count s _ => s.sortsForWindow && s.isWellFormed

def Condition.isWellFormed : Condition → Bool
  | .not child => child.isWellFormed
  | .logical _ first second rest =>
    2 ≤ (first :: second :: rest).length && first.isWellFormed && second.isWellFormed &&
      conditionsWellFormed rest
  | .comparison _ left right => left.isWellFormed && right.isWellFormed
  | .like _ _ _ => true
  | .isIn _ values => !values.isEmpty && operandsWellFormed values
  | .exists select => select.sortsForWindow && select.isWellFormed

def conditionsWellFormed : List Condition → Bool
  | [] => true
  | c :: cs => c.isWellFormed && conditionsWellFormed cs

def Operand.isWellFormed : Operand → Bool
  | .column _ | .parameter _ | .null => true
  | .count select => select.sortsForWindow && select.isWellFormed

def operandsWellFormed : List Operand → Bool
  | [] => true
  | o :: os => o.isWellFormed && operandsWellFormed os

end

/-- Fit to be read from, or to be asked in a condition. -/
def Select.isSubquery (s : Select) : Bool := s.sortsForWindow && s.isWellFormed

def Statement.isWellFormed : Statement → Bool
  | .select s => s.isWellFormed
  | .insert i => operandsWellFormed (i.assignments.map (·.value))
  | .update u =>
    !u.assignments.isEmpty && operandsWellFormed (u.assignments.map (·.value)) &&
      filterWellFormed (some u.filter)
  | .delete x => filterWellFormed (some x.filter)

/-! ## Lists of parts -/

theorem conditionsWellFormed_iff {cs : List Condition} :
    conditionsWellFormed cs = true ↔ ∀ c ∈ cs, c.isWellFormed = true := by
  induction cs with
  | nil => simp [conditionsWellFormed]
  | cons c cs ih => simp [conditionsWellFormed, ih]

theorem operandsWellFormed_iff {os : List Operand} :
    operandsWellFormed os = true ↔ ∀ o ∈ os, o.isWellFormed = true := by
  induction os with
  | nil => simp [operandsWellFormed]
  | cons o os ih => simp [operandsWellFormed, ih]

theorem termsWellFormed_iff {terms : List OrderTerm} :
    termsWellFormed terms = true ↔ ∀ term ∈ terms, term.isWellFormed = true := by
  induction terms with
  | nil => simp [termsWellFormed]
  | cons term terms ih => simp [termsWellFormed, ih]

theorem wellFormed_logical (connective : Connective) (first second : Condition)
    (rest : List Condition) :
    (Condition.logical connective first second rest).isWellFormed = true ↔
      ∀ c ∈ first :: second :: rest, c.isWellFormed = true := by
  simp [Condition.isWellFormed, conditionsWellFormed_iff, and_assoc]

/-- A list of values is well-formed if there are any, each of which is. -/
theorem wellFormed_isIn {column : Column} {values : List Operand} (given : values ≠ [])
    (each : ∀ o ∈ values, o.isWellFormed = true) :
    (Condition.isIn column values).isWellFormed = true := by
  simp [Condition.isWellFormed, given, operandsWellFormed_iff.2 each]

/-! ## Flattening -/

/-- The condition under which well-formed conditions hold together is well-formed. -/
theorem wellFormed_conjunction? {cs : List Condition} (h : ∀ c ∈ cs, c.isWellFormed = true) :
    filterWellFormed (conjunction? cs) = true := by
  have all := (forall_conjunction? (P := fun c => c.isWellFormed = true)
    (wellFormed_logical .and) cs).2 h
  cases joint : conjunction? cs with
  | none => rfl
  | some c =>
    have own := all c (by simp [joint])
    obtain ⟨whole, -, rfl⟩ := Option.map_eq_some_iff.1 joint
    simp [filterWellFormed, Condition.isFlat_flatten, own]

/-- What a select is called does not matter inside of it. -/
theorem Select.isSubquery_named (s : Select) (aliasName : Option String) :
    Select.isSubquery { s with aliasName } = s.isSubquery := by
  cases s
  rfl

end Sql

/-! ## Conditions -/

namespace Compile

open Sql

section

variable {c : Context} {root : Occurrence} {p q : Progress}

/-- A select over related resources is well-formed with what it is to select and to ask. -/
theorem wellFormed_related {path : List String} {opened : Related}
    (run : related c root path p = .ok opened q) {projection : Projection} {joins : List PathJoin}
    {conditions : List Condition} (projected : projection.isWellFormed = true)
    (each : ∀ x ∈ conditions, x.isWellFormed = true) :
    (opened.select projection joins conditions).isSubquery = true := by
  obtain ⟨here, p₁, parent, relationship, key, p₂, target, a, outer, inner, -, -, -, -, -, -, rfl⟩ :=
    related_run run
  have filtered : filterWellFormed (conjunction? (.equals (.column outer)
      (.column (.ofTable inner)) :: conditions)) = true :=
    wellFormed_conjunction? (List.forall_mem_cons.2 ⟨rfl, each⟩)
  simp [Related.select, Select.simple, Select.isSubquery, Select.sortsForWindow,
    Select.isWellFormed, Source.isWellFormed, orderWellFormed, projected, filtered]

theorem wellFormed_count {path : List String} {select : Select}
    (run : count c root path p = .ok select q) : select.isSubquery = true := by
  obtain ⟨opened, first, rfl⟩ := count_run run
  exact wellFormed_related first rfl (by simp)

theorem wellFormed_side {operand : Request.Operand} {s : Side}
    (run : side c root operand p = .ok s q) :
    ∀ select, s = .count select → select.isSubquery = true := by
  rintro select rfl
  rcases side_run run with ⟨path, column, held, -, same⟩ | ⟨path, counts, counted, same⟩ | ⟨plain, -⟩
  · cases same
  · cases same
    exact wellFormed_count counted
  · simp at plain

theorem wellFormed_bindSide {typing : Option Attribute} {s : Side} {operand : Operand}
    (counts : ∀ select, s = .count select → select.isSubquery = true)
    (run : bindSide c typing s p = .ok operand q) : operand.isWellFormed = true := by
  rcases bindSide_run run with ⟨column, held, rfl, rfl, rfl⟩ | ⟨select, rfl, rfl, rfl⟩ |
    ⟨rfl, rfl, rfl⟩ | ⟨v, value, parameter, rfl, -, -, rfl⟩
  · rfl
  · exact counts select rfl
  · rfl
  · rfl

theorem wellFormed_comparison {operator : Comparison} {left right : Request.Operand}
    {made : Condition} (run : comparison c root operator left right p = .ok made q) :
    made.isWellFormed = true := by
  obtain ⟨a, p₁, b, p₂, typing, x, p₃, y, first, second, -, bound, bound', rfl⟩ := comparison_run run
  have left := wellFormed_bindSide (wellFormed_side first) bound
  have right := wellFormed_bindSide (wellFormed_side second) bound'
  simp [Condition.isWellFormed, left, right]

theorem wellFormed_textMatch {place : TextMatch} {path : List String} {text : String}
    {made : Condition} (run : textMatch c root place path text p = .ok made q) :
    made.isWellFormed = true := by
  obtain ⟨column, held, p₁, parameter, -, -, -, rfl⟩ := textMatch_run run
  rfl

theorem wellFormed_anyOf {path : List String} {values : List Json} {made : Condition}
    (run : anyOf c root path values p = .ok made q) : made.isWellFormed = true := by
  obtain ⟨column, held, p₁, operands, given, -, bound, rfl⟩ := anyOf_run run
  refine wellFormed_isIn (forEach_ne_nil bound given) fun o member => ?_
  obtain ⟨value, -, before, after, run⟩ := forEach_mem bound member
  simp only [bind_eq_ok] at run
  obtain ⟨literal, _, -, parameter, p₂, -, run⟩ := run
  cases run
  rfl

theorem wellFormed_joined {connective : Connective} {conditions : List Condition} {made : Condition}
    (each : ∀ x ∈ conditions, x.isWellFormed = true)
    (run : joined connective conditions p = .ok made q) : made.isWellFormed = true := by
  obtain ⟨combined, -⟩ := joined_run run
  have all := (forall_combine (P := fun x => x.isWellFormed = true)
    (wellFormed_logical connective) conditions).2 each
  exact all made (by simp [combined])

mutual

theorem wellFormed_condition {root : Occurrence} {p q : Progress} {made : Condition} :
    (filter : Request.Filter) → condition c root filter p = .ok made q → made.isWellFormed = true
  | .and terms, run => by
    simp only [condition, bind_eq_ok] at run
    obtain ⟨conditions, p₁, each, run⟩ := run
    exact wellFormed_joined (wellFormed_conditions terms each) run
  | .or terms, run => by
    simp only [condition, bind_eq_ok] at run
    obtain ⟨conditions, p₁, each, run⟩ := run
    exact wellFormed_joined (wellFormed_conditions terms each) run
  | .not filter, run => by
    simp only [condition, bind_eq_ok] at run
    obtain ⟨child, p₁, first, run⟩ := run
    cases run
    have inside := wellFormed_condition filter first
    exact inside
  | .comparison operator left right, run => wellFormed_comparison run
  | .textMatch place path text, run => wellFormed_textMatch run
  | .any path values, run => wellFormed_anyOf run
  | .has path filter, run => by
    simp only [condition, bind_eq_ok] at run
    obtain ⟨select, p₁, inside, run⟩ := run
    cases run
    exact wellFormed_relatedSelect path rfl filter inside

theorem wellFormed_relatedSelect {root : Occurrence} {p q : Progress} {select : Select}
    (path : List String) {projection : Projection} (projected : projection.isWellFormed = true) :
    (filter : Option Request.Filter) →
    relatedSelect c root path projection filter p = .ok select q → select.isSubquery = true
  | none, run => by
    simp only [relatedSelect, bind_eq_ok] at run
    obtain ⟨opened, p₁, first, run⟩ := run
    cases run
    exact wellFormed_related first projected (by simp)
  | some filter, run => by
    simp only [relatedSelect, bind_eq_ok] at run
    obtain ⟨opened, p₁, first, ⟨inner, joins⟩, p₂, own, run⟩ := run
    obtain ⟨t, inside, rfl, rfl⟩ := inOwnScope_eq_ok.1 own
    cases run
    have asked := wellFormed_condition filter inside
    exact wellFormed_related first projected (by simpa using asked)

theorem wellFormed_conditions {root : Occurrence} {p q : Progress} {made : List Condition} :
    (filters : List Request.Filter) → conditions c root filters p = .ok made q →
    ∀ x ∈ made, x.isWellFormed = true
  | [], run => by
    cases run
    simp
  | filter :: filters, run => by
    simp only [conditions, bind_eq_ok] at run
    obtain ⟨first, p₁, head, rest, p₂, tail, run⟩ := run
    cases run
    exact List.forall_mem_cons.2
      ⟨wellFormed_condition filter head, wellFormed_conditions filters tail⟩

end

/-! ## Queries -/

theorem wellFormed_optionally {α : Type} {step : α → Compile Condition} {given : Option α}
    {made : List Condition}
    (each : ∀ a b p q, step a p = .ok b q → b.isWellFormed = true)
    (run : optionally step given p = .ok made q) : ∀ x ∈ made, x.isWellFormed = true := by
  rcases optionally_run run with ⟨-, rfl, -⟩ | ⟨a, b, -, first, rfl⟩
  · simp
  · simpa using each a b p q first

theorem wellFormed_identity {resource : Resource} {id : Json} {made : Condition}
    (run : identity c root resource id p = .ok made q) : made.isWellFormed = true := by
  obtain ⟨primaryKey, parameter, -, -, rfl⟩ := identity_run run
  rfl

theorem wellFormed_requestCondition {resource : Resource} {id : Option Json}
    {filter : Option Request.Filter} {made : Option Condition}
    (run : requestCondition c root resource id filter p = .ok made q) :
    filterWellFormed made = true := by
  obtain ⟨identities, p₁, filters, first, second, rfl⟩ := requestCondition_run run
  have identified := wellFormed_optionally (fun _ _ _ _ => wellFormed_identity) first
  have filtered := wellFormed_optionally (fun a _ _ _ => wellFormed_condition a) second
  exact wellFormed_conjunction? (List.forall_mem_append.2 ⟨identified, filtered⟩)

theorem wellFormed_orderTerm {element : Request.SortElement} {term : OrderTerm}
    (run : orderTerm c root element p = .ok term q) : term.isWellFormed = true := by
  rcases orderTerm_run run with ⟨path, column, held, -, rfl⟩ | ⟨path, select, counted, rfl⟩
  · rfl
  · exact wellFormed_count counted

theorem wellFormed_order {sort : List Request.SortElement} {terms : List OrderTerm}
    (run : order c root sort p = .ok terms q) : orderWellFormed (some terms) = true := by
  rcases order_run run with ⟨-, ⟨resource, primaryKey, -, -, rfl⟩, -⟩ | ⟨sorted, run⟩
  · rfl
  · have each : ∀ term ∈ terms, term.isWellFormed = true := by
      intro term member
      obtain ⟨element, -, before, after, run⟩ := forEach_mem run member
      exact wellFormed_orderTerm run
    simp [orderWellFormed, forEach_ne_nil run sorted, termsWellFormed_iff.2 each]

/-- Every select reads at least the primary key of its root. -/
theorem wellFormed_columnsRead {fields : NameMap (List String)} {joins : List PathJoin}
    {columns : List Column} (read : columnsRead c fields root joins = .ok columns) :
    (Projection.columns columns).isWellFormed = true := by
  obtain ⟨_, -, all⟩ := Except.bind_eq_ok.1 read
  obtain ⟨own, first, -⟩ := Except.bind_eq_ok.1 all
  obtain ⟨r, named, -⟩ := Except.bind_eq_ok.1 first
  obtain ⟨primaryKey, rest, -, rfl⟩ := columnsRead_head named read
  rfl

theorem wellFormed_subqueryColumns {r : Resource} {columns : List (String × ColumnRole)}
    (projected : r.projectedColumns = .ok columns) (table : Table) :
    (Projection.columns (subqueryColumns table columns)).isWellFormed = true := by
  obtain ⟨attributes, selected, -⟩ := Except.bind_eq_ok.1 projected
  obtain ⟨primaryKey, others, identified, -⟩ := Resource.selectedAttributes_head selected
  obtain ⟨role, member⟩ := r.mem_projectedColumns projected (Resource.holds_of_primaryKey identified)
  cases columns with
  | nil => cases member
  | cons first rest => rfl

variable {request : Request.Query} {r : Resource} {table : Table} {select : Select}

theorem wellFormed_plainRows (run : plainRows c request r table p = .ok select q) :
    select.isWellFormed = true := by
  obtain ⟨p₁, filter, p₂, terms, t, columns, -, first, second, read, rfl, -⟩ := plainRows_run run
  simp [Select.isWellFormed, Source.isWellFormed, wellFormed_columnsRead read,
    wellFormed_requestCondition first, wellFormed_order second]

/-- The page is the one subquery that is sorted, because it has a window. -/
theorem wellFormed_page (windowed : request.window.isAll = false)
    (run : page c request r table p = .ok select q) : select.isSubquery = true := by
  obtain ⟨filter, p₁, terms, t, columns, first, second, projected, rfl, -⟩ := page_run run
  simp [Select.isSubquery, Select.sortsForWindow, windowed, Select.isWellFormed,
    Source.isWellFormed, wellFormed_subqueryColumns projected, wellFormed_requestCondition first,
    wellFormed_order second]

theorem wellFormed_pagedRows (windowed : request.window.isAll = false)
    (run : pagedRows c request r table p = .ok select q) : select.isWellFormed = true := by
  obtain ⟨inner, p₁, a, p₂, p₃, terms, t, columns, paged, -, -, second, read, rfl, -⟩ :=
    pagedRows_run run
  have inside := wellFormed_page windowed paged
  rw [← Select.isSubquery_named inner (some a)] at inside
  have source : (Source.select { inner with aliasName := some a }).isWellFormed = true := inside
  simp [Select.isWellFormed, source, wellFormed_columnsRead read, filterWellFormed,
    wellFormed_order second]

theorem wellFormed_rows (run : rows c request p = .ok select q) : select.isWellFormed = true := by
  obtain ⟨r, table, p₁, p₂, -, -, run⟩ := rows_run run
  rcases run with run | ⟨windowed, run⟩
  · exact wellFormed_plainRows run
  · exact wellFormed_pagedRows windowed run

theorem wellFormed_rowCount (run : rowCount c request p = .ok select q) :
    select.isWellFormed = true := by
  obtain ⟨r, table, p₁, filter, t, -, first, rfl, -⟩ := rowCount_run run
  simp [Select.isWellFormed, Source.isWellFormed, Projection.isWellFormed, orderWellFormed,
    wellFormed_requestCondition first]

end

/-! ## Mutations -/

section

variable {c : Context} {p q : Progress} {resource : Resource} {table : Table} {key : ForeignKey}
  {id : Json} {ids : List Json} {made : Condition} {assignment : Assignment}
  {statement : Statement} {statements : List Statement}

theorem wellFormed_rowIs (run : rowIs c resource table id p = .ok made q) :
    filterWellFormed (some made) = true := by
  obtain ⟨primaryKey, parameter, -, -, rfl⟩ := rowIs_run run
  rfl

theorem wellFormed_rowIsAnyOf (given : ids ≠ [])
    (run : rowIsAnyOf c resource table ids p = .ok made q) :
    made.isConjunction = false ∧ made.isWellFormed = true := by
  obtain ⟨primaryKey, operands, -, bound, rfl⟩ := rowIsAnyOf_run run
  refine ⟨rfl, wellFormed_isIn (forEach_ne_nil bound given) fun o member => ?_⟩
  obtain ⟨id, -, before, after, run⟩ := forEach_mem bound member
  obtain ⟨parameter, p₁, -, run⟩ := bind_eq_ok.1 run
  cases run
  rfl

theorem wellFormed_assignKey {data : Request.RelationshipData}
    (run : assignKey c table key data p = .ok assignment q) :
    assignment.value.isWellFormed = true := by
  obtain ⟨-, ⟨-, -, value, -⟩ | ⟨id, target, parameter, -, -, -, value⟩⟩ := assignKey_run run
  · rw [value]
    rfl
  · rw [value]
    rfl

theorem wellFormed_assignAttribute {name : String} {value : Json}
    (run : assignAttribute c resource table name value p = .ok assignment q) :
    assignment.value.isWellFormed = true := by
  obtain ⟨held, -, -, ⟨-, value, -⟩ | ⟨literal, parameter, -, -, -, value⟩⟩ := assignAttribute_run run
  · rw [value]
    rfl
  · rw [value]
    rfl

theorem wellFormed_assignAttributes {attributes : NameMap Json} {assignments : List Assignment}
    (run : assignAttributes c resource table attributes p = .ok assignments q) :
    ∀ a ∈ assignments, a.value.isWellFormed = true := by
  intro a member
  obtain ⟨⟨name, value⟩, -, before, after, run⟩ := forEach_mem run member
  exact wellFormed_assignAttribute run

theorem wellFormed_assignNewKeys {relationships : NameMap Request.RelationshipData}
    {assignments : List Assignment}
    (run : assignNewKeys c resource table relationships p = .ok assignments q) :
    ∀ a ∈ assignments, a.value.isWellFormed = true := by
  intro a member
  obtain ⟨⟨name, data⟩, -, before, after, run⟩ := forEach_mem run member
  obtain ⟨key, p₁, -, run⟩ := bind_eq_ok.1 run
  split at run
  · simp [bind_eq_ok] at run
  · split at run
    · simp [bind_eq_ok] at run
    · exact wellFormed_assignKey run

theorem wellFormed_assignHeldKeys {given others : List (String × Request.RelationshipData)}
    {assignments : List Assignment}
    (run : assignHeldKeys c resource table given p = .ok (assignments, others) q) :
    ∀ a ∈ assignments, a.value.isWellFormed = true := by
  induction given generalizing assignments others p with
  | nil =>
    cases run
    simp
  | cons entry given ih =>
    obtain ⟨name, data⟩ := entry
    simp only [assignHeldKeys, bind_eq_ok] at run
    obtain ⟨key, p₁, -, run⟩ := run
    split at run
    · simp only [bind_eq_ok] at run
      obtain ⟨assignment, p₂, assigned, ⟨rest, others'⟩, p₃, held, run⟩ := run
      cases run
      exact List.forall_mem_cons.2 ⟨wellFormed_assignKey assigned, ih held⟩
    · simp only [bind_eq_ok] at run
      obtain ⟨⟨rest, others'⟩, p₂, held, run⟩ := run
      cases run
      exact ih held

/-- Narrowing joins two conditions that are no conjunctions. -/
theorem wellFormed_narrow {owned : Condition} {selection : Selection}
    (plain : owned.isConjunction = false) (own : owned.isWellFormed = true)
    (chosen : selection ≠ .only []) (run : narrow c resource table owned selection p = .ok made q) :
    filterWellFormed (some made) = true := by
  rcases narrow_run run with ⟨-, rfl, -⟩ | ⟨ids, among, first, ⟨rfl, rfl⟩ | ⟨-, given, rfl⟩⟩
  · simp [filterWellFormed, own, Condition.isFlat_of_not_conjunction plain]
  · obtain ⟨plain', own'⟩ := wellFormed_rowIsAnyOf (by simpa using chosen) first
    simp [filterWellFormed, Condition.isFlat, Condition.isWellFormed, conditionsWellFormed, plain,
      plain', own, own']
  · obtain ⟨-, own'⟩ := wellFormed_rowIsAnyOf given first
    have negated : (Condition.not among).isConjunction = false := rfl
    simp [filterWellFormed, Condition.isFlat, Condition.isWellFormed, conditionsWellFormed, plain,
      negated, own, own']

theorem wellFormed_detach {behavior : DeleteBehavior} {selection : Selection}
    (chosen : selection ≠ .only [])
    (run : detach c resource key behavior id selection p = .ok statement q) :
    statement.isWellFormed = true := by
  obtain ⟨target, parameter, p₁, filter, -, -, narrowed, rest⟩ := detach_run run
  have filtered := wellFormed_narrow rfl rfl chosen narrowed
  rcases rest with ⟨-, rfl⟩ | ⟨-, -, rfl⟩
  · simpa [Statement.isWellFormed, operandsWellFormed, Operand.isWellFormed] using filtered
  · exact filtered

theorem wellFormed_attach (given : ids ≠ [])
    (run : attach c resource key id ids p = .ok statement q) : statement.isWellFormed = true := by
  obtain ⟨target, parameter, p₁, filter, -, -, among, rfl⟩ := attach_run run
  obtain ⟨plain, own⟩ := wellFormed_rowIsAnyOf given among
  simp [Statement.isWellFormed, operandsWellFormed, Operand.isWellFormed, filterWellFormed,
    Condition.isFlat_of_not_conjunction plain, own]

theorem wellFormed_setRelationship {relationship : String} {data : Request.RelationshipData}
    (run : setRelationship c resource id relationship data p = .ok statements q) :
    ∀ s ∈ statements, s.isWellFormed = true := by
  obtain ⟨key, p₁, -, ⟨-, assignment, p₂, filter, assigned, own, rfl⟩ |
    ⟨-, ids, declared, detached, p₂, -, -, first, rest⟩⟩ := setRelationship_run run
  · have value := wellFormed_assignKey assigned
    simp [Statement.isWellFormed, operandsWellFormed, value, wellFormed_rowIs own]
  · have detaches := wellFormed_detach (by simp) first
    rcases rest with ⟨-, rfl, -⟩ | ⟨attached, given, second, rfl⟩
    · simpa using detaches
    · simpa using ⟨detaches, wellFormed_attach given second⟩

theorem wellFormed_addToRelationship {relationship : String}
    (run : addToRelationship c resource id relationship ids p = .ok statements q) :
    ∀ s ∈ statements, s.isWellFormed = true := by
  obtain ⟨key, p₁, -, -, ⟨-, rfl, -⟩ | ⟨attached, given, first, rfl⟩⟩ := addToRelationship_run run
  · simp
  · simpa using wellFormed_attach given first

theorem wellFormed_removeFromRelationship {relationship : String}
    (run : removeFromRelationship c resource id relationship ids p = .ok statements q) :
    ∀ s ∈ statements, s.isWellFormed = true := by
  obtain ⟨key, p₁, -, -, ⟨-, rfl, -⟩ | ⟨declared, detached, given, -, first, rfl⟩⟩ :=
    removeFromRelationship_run run
  · simp
  · simpa using wellFormed_detach (by simpa using given) first

theorem wellFormed_insert {name : String} {attributes : NameMap Json}
    {relationships : NameMap Request.RelationshipData}
    (run : insert c name attributes relationships p = .ok statements q) :
    ∀ s ∈ statements, s.isWellFormed = true := by
  obtain ⟨resource, values, p₁, keys, primaryKey, -, assigned, held, -, rfl⟩ := insert_run run
  have each := List.forall_mem_append.2
    ⟨wellFormed_assignAttributes assigned, wellFormed_assignNewKeys held⟩
  simp only [List.mem_singleton, forall_eq]
  exact operandsWellFormed_iff.2 (List.forall_mem_map.2 each)

theorem wellFormed_update {name : String} {attributes : NameMap Json}
    {relationships : NameMap Request.RelationshipData}
    (run : update c name id attributes relationships p = .ok statements q) :
    ∀ s ∈ statements, s.isWellFormed = true := by
  obtain ⟨resource, values, p₁, keys, others, p₂, own, p₃, linked, -, assigned, held, changed, related,
    rfl⟩ := update_run run
  intro s member
  rcases List.mem_append.1 member with member | member
  · rcases changed with ⟨-, rfl, -⟩ | ⟨filter, given, found, rfl⟩
    · cases member
    · obtain rfl := List.mem_singleton.1 member
      have each := List.forall_mem_append.2
        ⟨wellFormed_assignAttributes assigned, wellFormed_assignHeldKeys held⟩
      have valued := operandsWellFormed_iff.2 (List.forall_mem_map.2 each)
      have nonempty : (values ++ keys).isEmpty = false := List.isEmpty_eq_false_iff.2 given
      simp only [Statement.isWellFormed, nonempty, valued, wellFormed_rowIs found, Bool.not_false,
        Bool.and_self]
  · obtain ⟨made, own, member⟩ := List.mem_flatten.1 member
    obtain ⟨⟨name, data⟩, -, before, after, ran⟩ := forEach_mem related own
    exact wellFormed_setRelationship ran s member

theorem wellFormed_clearReferences {given : List (String × Relationship)}
    (run : clearReferences c resource id given p = .ok statements q) :
    ∀ s ∈ statements, s.isWellFormed = true := by
  induction given generalizing statements p with
  | nil =>
    cases run
    simp
  | cons entry given ih =>
    obtain ⟨name, relationship⟩ := entry
    simp only [clearReferences] at run
    split at run
    · simp only [bind_eq_ok] at run
      obtain ⟨key, p₁, -, detached, p₂, first, rest, p₃, others, run⟩ := run
      cases run
      exact List.forall_mem_cons.2 ⟨wellFormed_detach (by simp) first, ih others⟩
    · exact ih run

theorem wellFormed_delete {name : String} (run : delete c name id p = .ok statements q) :
    ∀ s ∈ statements, s.isWellFormed = true := by
  obtain ⟨resource, cleared, p₁, filter, -, references, own, rfl⟩ := delete_run run
  refine List.forall_mem_append.2 ⟨wellFormed_clearReferences references, ?_⟩
  simp only [List.mem_singleton, forall_eq]
  exact wellFormed_rowIs own

theorem wellFormed_mutation {m : Request.Mutation} (run : mutation c m p = .ok statements q) :
    ∀ s ∈ statements, s.isWellFormed = true := by
  cases m with
  | insert name attributes relationships => exact wellFormed_insert run
  | update name id attributes relationships => exact wellFormed_update run
  | delete name id => exact wellFormed_delete run
  | setRelationship name id relationship data =>
    obtain ⟨resource, p₁, -, run⟩ := bind_eq_ok.1 run
    exact wellFormed_setRelationship run
  | addToRelationship name id relationship ids =>
    obtain ⟨resource, p₁, -, run⟩ := bind_eq_ok.1 run
    exact wellFormed_addToRelationship run
  | removeFromRelationship name id relationship ids =>
    obtain ⟨resource, p₁, -, run⟩ := bind_eq_ok.1 run
    exact wellFormed_removeFromRelationship run

end

end Compile

/-! ## Statements of requests -/

/-- Every statement of a request is well-formed at every depth. -/
theorem Request.wellFormed_of_compile {c : Context} {r : Request} {p q : Progress}
    {statements : List Sql.Statement} (run : r.compile c p = .ok statements q) :
    ∀ s ∈ statements, s.isWellFormed = true := by
  cases r with
  | rows request =>
    obtain ⟨select, p₁, first, run⟩ := Compile.bind_eq_ok.1 run
    cases run
    simp only [List.mem_singleton, forall_eq]
    exact Compile.wellFormed_rows first
  | count request =>
    obtain ⟨select, p₁, first, run⟩ := Compile.bind_eq_ok.1 run
    cases run
    simp only [List.mem_singleton, forall_eq]
    exact Compile.wellFormed_rowCount first
  | mutation m => exact Compile.wellFormed_mutation run

theorem Request.wellFormed_of_compile_books : ∃ statements q,
    (Request.rows Sample.query).compile Sample.context .start = .ok statements q ∧
      statements.length = 1 ∧ ∀ s ∈ statements, s.isWellFormed = true := by
  obtain ⟨statements, q, run, single⟩ : ∃ statements q,
      (Request.rows Sample.query).compile Sample.context .start = .ok statements q ∧
        statements.length = 1 := ⟨_, _, rfl, rfl⟩
  exact ⟨statements, q, run, single, Request.wellFormed_of_compile run⟩

end ResourceSql
