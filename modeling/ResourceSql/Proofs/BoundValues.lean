/-
The values that a query binds. They are given by the metadata, the dialect and the
request alone (`Context.askedValues`), in the order of their placeholders: whatever
was joined before a condition is compiled, it binds the same values
(`values_condition`, by induction on the filter).
-/
import ResourceSql.Proofs.Alternatives
import ResourceSql.Proofs.BoundTypes

namespace ResourceSql

/-! ## Values by the request -/

/-- The value that a side of a comparison binds, if it is one. -/
def Known.bound (m : Metadata) (typing : Option Attribute) : Known → Except RequestError (List Value)
  | value v => return [← literal m typing v]
  | _ => return []

namespace Context

variable (c : Context)

def comparedValues (r : Resource) (left right : Request.Operand) :
    Except RequestError (List Value) := do
  let left ← c.metadata.operandOf r left
  let right ← c.metadata.operandOf r right
  let typing ← Known.typing left right
  let first ← left.bound c.metadata typing
  let second ← right.bound c.metadata typing
  return first ++ second

mutual

/-- The values of a filter, in the order in which they stand in it. -/
def filterValues : Resource → Request.Filter → Except RequestError (List Value)
  | r, .and terms => termValues r terms
  | r, .or terms => termValues r terms
  | r, .not filter => filterValues r filter
  | r, .comparison _ left right => c.comparedValues r left right
  | _, .textMatch place _ text => return [.text (c.dialect.pattern place text)]
  | r, .any path values => do
    let held ← c.metadata.fieldOf r path
    c.metadata.checkValues held values
  | r, .has path filter => do
    let link ← c.metadata.relatedOf r path
    relatedValues link.target filter

def relatedValues : Resource → Option Request.Filter → Except RequestError (List Value)
  | _, none => return []
  | target, some filter => filterValues target filter

def termValues : Resource → List Request.Filter → Except RequestError (List Value)
  | _, [] => return []
  | r, filter :: filters => do
    let first ← filterValues r filter
    let rest ← termValues r filters
    return first ++ rest

end

def identityValues (r : Resource) : Option Json → Except RequestError (List Value)
  | none => return []
  | some id => do
    let primaryKey ← r.primaryKey
    return [← primaryKey.literal c.metadata id]

/-- The values of a whole request. -/
def askedValues (r : Resource) (id : Option Json) (filter : Option Request.Filter) :
    Except RequestError (List Value) := do
  let first ← c.identityValues r id
  let rest ← c.relatedValues r filter
  return first ++ rest

end Context

/-! ## Values of what is compiled -/

/-- The values of placeholders. -/
def Sql.valuesOf (uses : List Use) : List Value := uses.map (·.parameter.value)

namespace Compile

open Sql

section

variable {c : Context} {root : Occurrence} {r : Resource} {p q : Progress}

/-- A side that was found is the operand that the metadata know, and binds nothing by itself. -/
theorem found_side {operand : Request.Operand} {s : Side} (sound : Sound c root r p)
    (run : side c root operand p = .ok s q) :
    Sound c root r q ∧ c.metadata.operandOf r operand = .ok s.known ∧
      ∀ select, s = .count select → select.uses = [] := by
  have honoured := Database.empty_honours default c.metadata
  obtain ⟨sound', -, known, found, rfl, -⟩ :=
    (keeps_side honoured sound (FitsFields.any c r) operand).of_ok run
  refine ⟨sound', found, ?_⟩
  rintro select rfl
  rcases side_run run with ⟨_, _, _, _, other⟩ | ⟨path, other, counted, same⟩ | ⟨other | ⟨v, other⟩, _⟩
  · cases other
  · cases same
    exact uses_count counted
  · cases other
  · cases other

theorem values_bindSide {typing : Option Attribute} {s : Side} {operand : Operand}
    (uncounted : ∀ select, s = .count select → select.uses = [])
    (run : bindSide c typing s p = .ok operand q) (role : Role) :
    s.known.bound c.metadata typing = .ok (valuesOf (operand.uses role)) := by
  rcases bindSide_run run with ⟨column, held, rfl, rfl, rfl⟩ | ⟨select, rfl, rfl, rfl⟩ |
    ⟨rfl, rfl, rfl⟩ | ⟨v, value, parameter, rfl, read, bound, rfl⟩
  · rfl
  · rw [Operand.uses, uncounted select rfl]
    rfl
  · rfl
  · cases bound
    exact Except.bind_eq_ok.2 ⟨value, read, rfl⟩

theorem values_comparison {operator : Comparison} {left right : Request.Operand} {made : Condition}
    (sound : Sound c root r p) (run : comparison c root operator left right p = .ok made q) :
    c.comparedValues r left right = .ok (valuesOf made.uses) := by
  obtain ⟨a, p₁, b, p₂, typing, x, p₃, y, first, second, typed, bound, bound', rfl⟩ :=
    comparison_run run
  obtain ⟨sound, known, uncounted⟩ := found_side sound first
  obtain ⟨-, known', uncounted'⟩ := found_side sound second
  rw [Condition.uses, valuesOf, List.map_append]
  exact Except.bind_eq_ok.2 ⟨_, known, Except.bind_eq_ok.2 ⟨_, known', Except.bind_eq_ok.2
    ⟨_, typed, Except.bind_eq_ok.2 ⟨_, values_bindSide uncounted bound _, Except.bind_eq_ok.2
      ⟨_, values_bindSide uncounted' bound' _, rfl⟩⟩⟩⟩⟩

theorem values_operands {held : Attribute} {given : List Json} {operands : List Operand}
    (run : forEach (fun value => do
      return Operand.parameter (← bindValue (← ofExcept (held.literal c.metadata value))))
      given p = .ok operands q) (role : Role) :
    c.metadata.checkValues held given = .ok (valuesOf (operandUses role operands)) := by
  induction given generalizing operands p with
  | nil =>
    cases run
    rfl
  | cons value given ih =>
    simp only [forEach, bind_eq_ok, ofExcept_eq_ok] at run
    obtain ⟨_, p₁, ⟨literal, _, ⟨read, rfl⟩, parameter, p₂, bound, first⟩, rest, p₃, others, run⟩ := run
    cases bound
    cases first
    cases run
    exact Except.bind_eq_ok.2 ⟨literal, read, Except.bind_eq_ok.2 ⟨_, ih others, rfl⟩⟩

theorem values_anyOf {path : List String} {given : List Json} {made : Condition}
    (sound : Sound c root r p) (run : anyOf c root path given p = .ok made q) :
    c.filterValues r (.any path given) = .ok (valuesOf made.uses) := by
  obtain ⟨column, held, p₁, operands, -, found, bound, rfl⟩ := anyOf_run run
  have honoured := Database.empty_honours default c.metadata
  obtain ⟨-, -, held, known, rfl, -⟩ :=
    (keeps_field honoured sound (FitsFields.any c r) path).of_ok found
  rw [Context.filterValues]
  exact Except.bind_eq_ok.2 ⟨held, known, values_operands bound _⟩

theorem sound_condition {filter : Request.Filter} {made : Condition} (sound : Sound c root r p)
    (run : condition c root filter p = .ok made q) : Sound c root r q := by
  have honoured := Database.empty_honours default c.metadata
  exact ((keeps_condition honoured sound (FitsFields.any c r) filter).of_ok run).1

end

mutual

/-- A condition binds the values of its filter. -/
theorem values_condition {c : Context} {root : Occurrence} {r : Resource} {p q : Progress}
    {made : Condition} (sound : Sound c root r p) : (filter : Request.Filter) →
    condition c root filter p = .ok made q → c.filterValues r filter = .ok (valuesOf made.uses)
  | .and terms, run => by
    simp only [condition, bind_eq_ok] at run
    obtain ⟨conditions, p₁, each, run⟩ := run
    rw [Context.filterValues, uses_joined run]
    exact values_conditions sound terms each
  | .or terms, run => by
    simp only [condition, bind_eq_ok] at run
    obtain ⟨conditions, p₁, each, run⟩ := run
    rw [Context.filterValues, uses_joined run]
    exact values_conditions sound terms each
  | .not filter, run => by
    simp only [condition, bind_eq_ok] at run
    obtain ⟨child, p₁, first, run⟩ := run
    cases run
    have values := values_condition sound filter first
    rw [Context.filterValues]
    exact values
  | .comparison operator left right, run => by
    rw [Context.filterValues]
    exact values_comparison sound run
  | .textMatch place path text, run => by
    obtain ⟨column, held, p₁, parameter, -, -, bound, rfl⟩ := textMatch_run run
    cases bound
    rw [Context.filterValues]
    rfl
  | .any path given, run => values_anyOf sound run
  | .has path filter, run => by
    simp only [condition, bind_eq_ok] at run
    obtain ⟨select, p₁, inside, run⟩ := run
    cases run
    rw [Context.filterValues]
    exact values_relatedSelect sound path filter inside

theorem values_relatedSelect {c : Context} {root : Occurrence} {r : Resource} {p q : Progress}
    {select : Select} (sound : Sound c root r p) (path : List String) :
    (filter : Option Request.Filter) → relatedSelect c root path .one filter p = .ok select q →
    (c.metadata.relatedOf r path >>= fun link => c.relatedValues link.target filter) =
      .ok (valuesOf select.uses)
  | none, run => by
    simp only [relatedSelect, bind_eq_ok] at run
    obtain ⟨opened, p₁, first, run⟩ := run
    cases run
    have honoured := Database.empty_honours default c.metadata
    obtain ⟨-, -, link, known, -⟩ :=
      (keeps_related honoured sound (FitsFields.any c r) path).of_ok first
    rw [uses_relatedSelect (related_link first).1]
    exact Except.bind_eq_ok.2 ⟨link, known, by rw [Context.relatedValues]; rfl⟩
  | some filter, run => by
    simp only [relatedSelect, bind_eq_ok] at run
    obtain ⟨opened, p₁, first, ⟨inner, joins⟩, p₂, own, run⟩ := run
    obtain ⟨t, inside, rfl, rfl⟩ := inOwnScope_eq_ok.1 own
    cases run
    have honoured := Database.empty_honours default c.metadata
    obtain ⟨sound, -, link, known, here, number, rfl, opens⟩ :=
      (keeps_related honoured sound (FitsFields.any c r) path).of_ok first
    have start : Sound c (link.opened here number).root link.target { p₁ with joins := [] } :=
      ⟨opens.found, sound.remembers, .nil rfl opens.below⟩
    rw [uses_relatedSelect (related_link first).1, List.flatMap_singleton]
    refine Except.bind_eq_ok.2 ⟨link, known, ?_⟩
    rw [Context.relatedValues]
    exact values_condition start filter inside

theorem values_conditions {c : Context} {root : Occurrence} {r : Resource} {p q : Progress}
    {made : List Condition} (sound : Sound c root r p) : (filters : List Request.Filter) →
    conditions c root filters p = .ok made q →
    c.termValues r filters = .ok (valuesOf (made.flatMap Condition.uses))
  | [], run => by
    cases run
    rw [Context.termValues]
    rfl
  | filter :: filters, run => by
    simp only [conditions, bind_eq_ok] at run
    obtain ⟨first, p₁, head, rest, p₂, tail, run⟩ := run
    cases run
    have head' := values_condition sound filter head
    have tail' := values_conditions (sound_condition sound head) filters tail
    rw [Context.termValues, List.flatMap_cons, valuesOf, List.map_append]
    exact Except.bind_eq_ok.2 ⟨_, head', Except.bind_eq_ok.2 ⟨_, tail', rfl⟩⟩

end

section

variable {c : Context} {root : Occurrence} {r : Resource} {p q : Progress}

theorem values_identity {id : Json} {made : Condition} (sound : Sound c root r p)
    (run : identity c root r id p = .ok made q) :
    Sound c root r q ∧ c.identityValues r (some id) = .ok (valuesOf made.uses) := by
  obtain ⟨primaryKey, parameter, identified, bound, rfl⟩ := identity_run run
  have kept : Keeps c root r AnyFits p _ _ _ := keeps_bindId sound id
  obtain ⟨sound', -, -, -, other, same, read⟩ := kept.of_ok bound
  obtain rfl := Except.ok.inj (same.symm.trans identified)
  exact ⟨sound', Except.bind_eq_ok.2 ⟨other, same, Except.bind_eq_ok.2 ⟨_, read, rfl⟩⟩⟩

/-- The condition of a request binds the values of the request. -/
theorem values_requestCondition {id : Option Json} {filter : Option Request.Filter}
    {made : Option Condition} (sound : Sound c root r p)
    (run : requestCondition c root r id filter p = .ok made q) :
    c.askedValues r id filter = .ok (valuesOf (filterUses made)) := by
  obtain ⟨identities, p₁, filters, first, second, rfl⟩ := requestCondition_run run
  have ⟨sound', identity⟩ : Sound c root r p₁ ∧
      c.identityValues r id = .ok (valuesOf (identities.flatMap Condition.uses)) := by
    rcases optionally_run first with ⟨rfl, rfl, rfl⟩ | ⟨id, condition, rfl, made, rfl⟩
    · exact ⟨sound, rfl⟩
    · rw [List.flatMap_singleton]
      exact values_identity sound made
  have others : c.relatedValues r filter = .ok (valuesOf (filters.flatMap Condition.uses)) := by
    rcases optionally_run second with ⟨rfl, rfl, -⟩ | ⟨filter, made, rfl, ran, rfl⟩
    · rw [Context.relatedValues]
      rfl
    · rw [Context.relatedValues, List.flatMap_singleton]
      exact values_condition sound' filter ran
  rw [uses_conjunction?, List.flatMap_append, valuesOf, List.map_append]
  exact Except.bind_eq_ok.2 ⟨_, identity, Except.bind_eq_ok.2 ⟨_, others, rfl⟩⟩

end

end Compile

end ResourceSql
