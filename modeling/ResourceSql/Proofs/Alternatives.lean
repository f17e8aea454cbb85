/-
A list of values against the comparisons with each of them. Both are accepted or
refused alike, since a refusal depends on the metadata alone
(`verdict_condition`) and the metadata do not tell them apart
(`checkFilter_equalsEach`). If none of the values is null, both are true of the
same rows and leave the same progress behind (`agree_any_equalsEach`), and so do all
filters that differ in them only (`agree_fill`). A null in the list is compared,
while a comparison with null asks for it: the list is never false then
(`truth_any_ne_false`).
-/
import ResourceSql.Proofs.Agreement
import ResourceSql.Proofs.FilterMeaning
import ResourceSql.Proofs.Repetition

namespace ResourceSql

namespace Request.Filter

/-- The field equals one of the values, each of which is compared with. -/
def equalsEach (path : FieldPath) (values : List Json) : Filter :=
  .or (values.map fun value => .comparison .equals (.field path) (.value value))

/-- Terms joined by a connective. -/
def connected : Connective → List Filter → Filter
  | .and => and
  | .or => or

/-- A place in a filter where another filter can stand. -/
inductive Place where
  | here
  | not (inside : Place)
  | connected (connective : Connective) (before : List Filter) (inside : Place)
    (after : List Filter)
  | has (path : FieldPath) (inside : Place)

/-- The filter with another one at a place. -/
def Place.fill (filter : Filter) : Place → Filter
  | here => filter
  | not inside => .not (inside.fill filter)
  | connected connective before inside after =>
    .connected connective (before ++ inside.fill filter :: after)
  | has path inside => .has path (some (inside.fill filter))

end Request.Filter

/-! ## Verdicts -/

/-- The database without rows. -/
def Database.empty : Database := ⟨fun _ _ => []⟩

theorem Database.empty_honours (g : Engine) (m : Metadata) : Database.empty.Honours g m where
  unique _ _ := List.nodup_nil
  notNull _ _ stored := nomatch stored
  single _ _ stored := nomatch stored
  complete _ _ _ stored := nomatch stored

instance : Inhabited Engine :=
  ⟨⟨fun _ _ _ => false, fun _ _ => false, fun _ => .null, fun _ _ => .eq⟩⟩

/-- Whether a step succeeds, and with which error it does not. -/
def Compile.verdict {α : Type} (x : Compile α) (p : Progress) : Except RequestError Unit :=
  match x p with
  | .ok _ _ => .ok ()
  | .error e _ => .error e

section

variable {c : Context} {root : Occurrence} {r : Resource} {path : List String}
  {values : List Json} {p q : Progress}

theorem Keeps.verdict_eq {α : Type} {fits : List String → Bool → Prop}
    {expected : Except RequestError Unit} {good : Unit → α → Progress → Prop} {x : Compile α}
    (h : Keeps c root r fits p expected good (x p)) : x.verdict p = expected := by
  unfold Compile.verdict
  cases run : x p with
  | ok a q =>
    rw [run] at h
    obtain ⟨-, -, _, rfl, -⟩ := h
    rfl
  | error e q =>
    rw [run] at h
    obtain ⟨-, -, rfl⟩ := h
    rfl

/-- Whether a filter is accepted depends on the metadata, not on what was compiled before. -/
theorem Compile.verdict_condition (visited : Visited c root p) :
    ∃ r, ∀ filter, (condition c root filter).verdict p = c.metadata.checkFilter r filter := by
  have honoured := Database.empty_honours default c.metadata
  obtain ⟨r, sound⟩ := visited.sound honoured
  exact ⟨r, fun filter => (keeps_condition honoured sound (FitsFields.any c r) filter).verdict_eq⟩

namespace Metadata

variable {m : Metadata}

/-- All types of values can be compared for equality, also with null. -/
theorem checkOperands_equals (value : Json) :
    m.checkOperands r .equals (.field path) (.value value) = (do
      let held ← m.fieldOf r path
      let _ ← held.literal m value) := by
  have left : m.operandOf r (.field path) = (do return .field (← m.fieldOf r path)) := by
    rw [operandOf]
  rw [checkOperands, left]
  cases m.fieldOf r path with
  | error e => rfl
  | ok held =>
    cases value with
    | null =>
      have literal : held.literal m .null = .ok .null := Known.literal_null m (some held)
      show Except.ok () = (do let _ ← held.literal m .null)
      rw [literal]
      rfl
    | _ =>
      have allowed (value : Json) :
          Known.check .equals held.type (.field held) (.value value) = .ok () :=
        if_pos held.type.equals_mem_comparisons
      show (Known.check .equals held.type (.field held) (.value _) >>= fun _ => _) = _
      rw [allowed]
      rfl

theorem checkFilters_equalsEach {held : Attribute} (found : m.fieldOf r path = .ok held) :
    m.checkFilters r (values.map fun value => .comparison .equals (.field path) (.value value)) =
      (do let _ ← m.checkValues held values) := by
  induction values with
  | nil => rfl
  | cons value values ih =>
    rw [List.map_cons, checkFilters, checkFilter, checkOperands_equals, found, ih, checkValues]
    show ((held.literal m value >>= fun _ => pure ()) >>= fun _ => _) = _
    simp only [bind_assoc, pure_bind]

/-- The metadata allow a list of values exactly if they allow the comparisons with each of them. -/
theorem checkFilter_equalsEach (some : values ≠ []) :
    m.checkFilter r (.equalsEach path values) = m.checkFilter r (.any path values) := by
  unfold Request.Filter.equalsEach
  rw [checkFilter, checkFilter]
  cases found : m.fieldOf r path with
  | error e =>
    cases values with
    | nil => exact absurd rfl some
    | cons value values =>
      rw [List.map_cons, checkFilters, checkFilter, checkOperands_equals, found]
      rfl
  | ok held =>
    rw [checkFilters_equalsEach found]
    cases values with
    | nil => exact absurd rfl some
    | cons value values =>
      show (m.checkValues held (value :: values) >>= fun _ => pure ()) >>= (fun _ => pure ()) =
        (m.checkValues held (value :: values) >>= fun _ => pure ())
      simp only [bind_assoc, pure_bind]

theorem checkFilters_append_cons {filter filter' : Request.Filter}
    (same : m.checkFilter r filter = m.checkFilter r filter') (before after : List Request.Filter) :
    m.checkFilters r (before ++ filter :: after) =
      m.checkFilters r (before ++ filter' :: after) := by
  induction before with
  | nil => rw [List.nil_append, List.nil_append, checkFilters, checkFilters, same]
  | cons first before ih => rw [List.cons_append, List.cons_append, checkFilters, checkFilters, ih]

theorem checkFilter_fill {filter filter' : Request.Filter}
    (same : ∀ r, m.checkFilter r filter = m.checkFilter r filter') (place : Request.Filter.Place) :
    m.checkFilter r (place.fill filter) = m.checkFilter r (place.fill filter') := by
  induction place generalizing r with
  | here => exact same r
  | not inside ih =>
    rw [Request.Filter.Place.fill, Request.Filter.Place.fill, checkFilter, checkFilter, ih]
  | connected connective before inside after ih =>
    have nonempty (first : Request.Filter) : (before ++ first :: after).isEmpty = false := by simp
    cases connective <;>
      simp only [Request.Filter.Place.fill, Request.Filter.connected, checkFilter,
        checkFilters_append_cons ih, nonempty]
  | has path inside ih =>
    simp only [Request.Filter.Place.fill, checkFilter, checkRelated, ih]

end Metadata

end

/-! ## Outcomes -/

/-- The truth of a condition, on all rows of all databases. -/
def Sql.Condition.outcome (condition : Sql.Condition) : Engine → Database → Bound → Truth :=
  fun g db e => condition.truth g db e

theorem Sql.Condition.outcome_eq_iff {a b : Condition} :
    a.outcome = b.outcome ↔ ∀ g db e, a.truth g db e = b.truth g db e := by
  simp only [funext_iff, outcome]

theorem Sql.truths_eq {cs ds : List Sql.Condition}
    (alike : cs.map Condition.outcome = ds.map Condition.outcome) (g : Engine) (db : Database)
    (e : Bound) : truths g db cs e = truths g db ds e := by
  induction cs generalizing ds with
  | nil =>
    cases ds with
    | nil => rfl
    | cons d ds => cases alike
  | cons c cs ih =>
    cases ds with
    | nil => cases alike
    | cons d ds =>
      obtain ⟨first, rest⟩ := List.cons.inj alike
      rw [truths, truths, ih rest, Condition.outcome_eq_iff.1 first]

/-- Conditions that are true of the same rows select the same of the related rows. -/
theorem Related.result_select (opened : Related) (joins : List PathJoin) {cs ds : List Sql.Condition}
    (alike : cs.map Sql.Condition.outcome = ds.map Sql.Condition.outcome) (g : Engine)
    (db : Database) (e : Bound) :
    (opened.select .one joins cs).result g db e = (opened.select .one joins ds).result g db e := by
  have filters (e : Bound) : Sql.filterTruth g db (Sql.conjunction? (opened.link :: cs)) e =
      Sql.filterTruth g db (Sql.conjunction? (opened.link :: ds)) e := by
    rw [Sql.filterTruth_conjunction?, Sql.filterTruth_conjunction?, Sql.truths, Sql.truths,
      Sql.truths_eq alike]
  rw [Sql.Select.result_one rfl rfl rfl, Sql.Select.result_one rfl rfl rfl]
  simp only [Sql.Select.matched, select, filters]
  rfl

namespace Compile

section

variable {c : Context} {root : Occurrence} {path : List String} {values : List Json}
  {p p₁ q : Progress}

/-- A value that is not null is bound and compared with the column of a field. -/
theorem equals_run {value : Json} {column : Sql.Column} {held : Attribute}
    {condition : Sql.Condition} (notNull : value ≠ .null)
    (found : field c root path p = .ok (column, held) p₁)
    (run : comparison c root .equals (.field path) (.value value) p = .ok condition q) :
    ∃ literal parameter, held.literal c.metadata value = .ok literal ∧
      bindValue literal p₁ = .ok parameter q ∧
      condition = .comparison .equals (.column column) (.parameter parameter) := by
  have right : side c root (.value value) = pure (.value value) := by
    cases value with
    | null => exact absurd rfl notNull
    | _ => rfl
  have left : side c root (.field path) p = .ok (.column column held) p₁ :=
    bind_eq_ok.2 ⟨(column, held), p₁, found, rfl⟩
  obtain ⟨a, _, b, _, typing, x, _, y, first, second, typed, bound, bound', rfl⟩ :=
    comparison_run run
  cases left.symm.trans first
  rw [right] at second
  cases second
  cases typed
  cases bound
  obtain ⟨literal, _, taken, bound'⟩ := bind_eq_ok.1 bound'
  obtain ⟨known, rfl⟩ := ofExcept_eq_ok.1 taken
  obtain ⟨parameter, _, bound', made⟩ := bind_eq_ok.1 bound'
  cases made
  exact ⟨literal, parameter, known, bound', rfl⟩

/-- The comparisons with the values of a list bind what the list binds. Only the first of them has to
find the field: when there is none, it is found already. -/
theorem equalsEach_run {column : Sql.Column} {held : Attribute} {conditions : List Sql.Condition}
    (notNull : Json.null ∉ values) (start : values = [] → p = p₁)
    (found : field c root path p = .ok (column, held) p₁)
    (run : Compile.conditions c root (values.map fun value =>
      .comparison .equals (.field path) (.value value)) p = .ok conditions q) :
    ∃ operands, forEach (fun value => do
        return Sql.Operand.parameter (← bindValue (← ofExcept (held.literal c.metadata value))))
        values p₁ = .ok operands q ∧
      ∀ g db e, Sql.truths g db conditions e =
        (Sql.operandValues g db operands e).map (g.compare .equals (e.column column)) := by
  induction values generalizing p p₁ conditions with
  | nil =>
    cases run
    obtain rfl := start rfl
    exact ⟨[], rfl, fun _ _ _ => rfl⟩
  | cons value values ih =>
    obtain ⟨notNull, others⟩ := not_or.1 (mt List.mem_cons.2 notNull)
    rw [List.map_cons, Compile.conditions] at run
    obtain ⟨first, p₂, head, run⟩ := bind_eq_ok.1 run
    obtain ⟨rest, _, tail, run⟩ := bind_eq_ok.1 run
    cases run
    rw [condition] at head
    obtain ⟨literal, parameter, known, bound, rfl⟩ := equals_run (Ne.symm notNull) found head
    rw [bindValue_apply] at bound
    cases bound
    have counted : p₁.Retains { p₁ with parameters := p₁.parameters + 1 } := .of_eq rfl rfl
    obtain ⟨-, again⟩ := (repeats_field c root path).of_ok found
    obtain ⟨operands, listed, truths⟩ := ih others (fun _ => rfl) (again _ counted) tail
    refine ⟨.parameter (.numbered (p₁.parameters + 1) literal) :: operands, ?_, fun g db e => ?_⟩
    · refine bind_eq_ok.2 ⟨_, _, ?_, bind_eq_ok.2 ⟨operands, _, listed, rfl⟩⟩
      exact bind_eq_ok.2 ⟨literal, p₁, ofExcept_eq_ok.2 ⟨known, rfl⟩, rfl⟩
    · rw [Sql.truths, Sql.operandValues, truths, List.map_cons]
      rfl

/-- Without nulls, a list of values and the comparisons with each of them are true of the same
rows. -/
theorem agree_any_equalsEach (notNull : Json.null ∉ values) :
    Agree Sql.Condition.outcome (condition c root (.any path values))
      (condition c root (.equalsEach path values)) := by
  refine ⟨fun run other => ?_⟩
  rw [condition] at run
  rw [Request.Filter.equalsEach, condition] at other
  obtain ⟨column, held, p₁, operands, some, found, bound, rfl⟩ := anyOf_run run
  obtain ⟨conditions, _, each, joint⟩ := bind_eq_ok.1 other
  obtain ⟨combined, rfl⟩ := joined_run joint
  obtain ⟨same, bound', truths⟩ := equalsEach_run notNull (absurd · some) found each
  cases bound.symm.trans bound'
  refine ⟨rfl, Sql.Condition.outcome_eq_iff.2 fun g db e => ?_⟩
  rw [Sql.Condition.truth_combine combined, truths]
  rfl

theorem condition_connected (connective : Connective) (terms : List Request.Filter) :
    condition c root (.connected connective terms) = (do
      joined connective (← conditions c root terms)) := by
  cases connective with
  | and => rw [Request.Filter.connected, condition]
  | or => rw [Request.Filter.connected, condition]

theorem agree_joined_outcomes {conditions conditions' : List Sql.Condition} (connective : Connective)
    (alike : conditions.map Sql.Condition.outcome = conditions'.map Sql.Condition.outcome) :
    Agree Sql.Condition.outcome (joined connective conditions) (joined connective conditions') := by
  refine ⟨fun run other => ?_⟩
  obtain ⟨combined, rfl⟩ := joined_run run
  obtain ⟨combined', rfl⟩ := joined_run other
  refine ⟨rfl, Sql.Condition.outcome_eq_iff.2 fun g db e => ?_⟩
  rw [Sql.Condition.truth_combine combined, Sql.Condition.truth_combine combined',
    Sql.truths_eq alike]

theorem agree_conditions_outcomes {filter filter' : Request.Filter}
    (same : Agree Sql.Condition.outcome (condition c root filter) (condition c root filter'))
    (before after : List Request.Filter) :
    Agree (List.map Sql.Condition.outcome) (conditions c root (before ++ filter :: after))
      (conditions c root (before ++ filter' :: after)) := by
  induction before with
  | nil =>
    rw [List.nil_append, List.nil_append, conditions, conditions]
    refine .bind same fun _ _ first => .bind_same fun _ => .pure ?_
    rw [List.map_cons, List.map_cons, first]
  | cons first before ih =>
    rw [List.cons_append, List.cons_append, conditions, conditions]
    refine .bind_same fun _ => .bind ih fun _ _ rest => .pure ?_
    rw [List.map_cons, List.map_cons, rest]

/-- Selects over related resources read the same if their filters are true of the same rows. -/
theorem agree_results {filter filter' : Request.Filter}
    (same : ∀ root, Agree Sql.Condition.outcome (condition c root filter) (condition c root filter'))
    (path : List String) :
    Agree (fun select g db e => Sql.Select.result g db select e)
      (relatedSelect c root path .one (some filter))
      (relatedSelect c root path .one (some filter')) := by
  rw [relatedSelect, relatedSelect]
  refine .bind_same fun opened => .bind (same opened.root).inOwnScope ?_
  rintro ⟨inner, joins⟩ ⟨inner', _⟩ alike
  obtain ⟨alike, rfl⟩ := Prod.mk.inj alike
  have alike : [inner].map Sql.Condition.outcome = [inner'].map Sql.Condition.outcome :=
    congrArg (fun outcome => [outcome]) alike
  exact .pure (funext fun g => funext fun db => funext fun e =>
    opened.result_select joins alike g db e)

/-- Filters that are true of the same rows can stand for each other at any place. -/
theorem agree_fill {filter filter' : Request.Filter}
    (same : ∀ root, Agree Sql.Condition.outcome (condition c root filter) (condition c root filter'))
    (place : Request.Filter.Place) :
    Agree Sql.Condition.outcome (condition c root (place.fill filter))
      (condition c root (place.fill filter')) := by
  induction place generalizing root with
  | here => exact same root
  | not inside ih =>
    rw [Request.Filter.Place.fill, Request.Filter.Place.fill, condition, condition]
    refine .bind ih fun a b alike => .pure (Sql.Condition.outcome_eq_iff.2 fun g db e => ?_)
    rw [Sql.Condition.truth, Sql.Condition.truth, Sql.Condition.outcome_eq_iff.1 alike]
  | connected connective before inside after ih =>
    rw [Request.Filter.Place.fill, Request.Filter.Place.fill, condition_connected,
      condition_connected]
    exact .bind (agree_conditions_outcomes ih before after) fun _ _ alike =>
      agree_joined_outcomes connective alike
  | has path inside ih =>
    rw [Request.Filter.Place.fill, Request.Filter.Place.fill, condition, condition]
    refine .bind (agree_results (fun _ => ih) path) fun select select' alike => .pure ?_
    refine Sql.Condition.outcome_eq_iff.2 fun g db e => ?_
    rw [Sql.Condition.truth, Sql.Condition.truth, congrFun (congrFun (congrFun alike g) db) e]

/-- A null in a list is bound to a parameter as the other values are. -/
theorem null_mem_operandValues {held : Attribute} {operands : List Sql.Operand}
    (null : Json.null ∈ values)
    (run : forEach (fun value => do
      return Sql.Operand.parameter (← bindValue (← ofExcept (held.literal c.metadata value))))
      values p = .ok operands q) (g : Engine) (db : Database) (e : Bound) :
    Value.null ∈ Sql.operandValues g db operands e := by
  induction values generalizing p operands with
  | nil => cases null
  | cons value values ih =>
    obtain ⟨first, p₁, head, run⟩ := bind_eq_ok.1 run
    obtain ⟨rest, _, tail, run⟩ := bind_eq_ok.1 run
    cases run
    rw [Sql.operandValues]
    rcases List.mem_cons.1 null with rfl | null
    · obtain ⟨literal, _, taken, head⟩ := bind_eq_ok.1 head
      obtain ⟨known, rfl⟩ := ofExcept_eq_ok.1 taken
      cases (Known.literal_null c.metadata (some held)).symm.trans known
      cases head
      exact List.mem_cons_self ..
    · exact List.mem_cons_of_mem _ (ih null tail)

/-- With a null among the values, a list is false of no row at all, also of none that all other
values differ from. -/
theorem truth_any_ne_false {condition : Sql.Condition} (null : Json.null ∈ values)
    (accepted : Compile.condition c root (.any path values) p = .ok condition q) (g : Engine)
    (db : Database) (e : Bound) : condition.truth g db e ≠ .false := by
  rw [Compile.condition] at accepted
  obtain ⟨column, held, p₁, operands, -, -, bound, rfl⟩ := anyOf_run accepted
  refine Truth.any_ne_false (List.mem_map.2 ⟨.null, null_mem_operandValues null bound g db e, ?_⟩)
  exact if_pos (Bool.or_true _)

/-- **A list of values means that one of them is equal, unless one of them is null.** At any place in
a filter, a list of values that is not empty is accepted, or refused with the same error, as the
comparisons with each of the values are; and if none of the values is null, the condition with the
list is, beside the same joins, on all rows as true as the one with the comparisons. -/
theorem any_equalsEach (visited : Visited c root p) (path : List String) (some : values ≠ [])
    (place : Request.Filter.Place) :
    (condition c root (place.fill (.any path values))).verdict p =
        (condition c root (place.fill (.equalsEach path values))).verdict p ∧
      (Json.null ∉ values → ∀ {a b : Sql.Condition} {q s : Progress},
        condition c root (place.fill (.any path values)) p = .ok a q →
        condition c root (place.fill (.equalsEach path values)) p = .ok b s →
        q = s ∧ ∀ g db e, a.truth g db e = b.truth g db e) := by
  constructor
  · obtain ⟨r, verdict⟩ := verdict_condition visited
    rw [verdict, verdict]
    exact Metadata.checkFilter_fill (fun _ => (Metadata.checkFilter_equalsEach some).symm) place
  · intro notNull a b q s run other
    obtain ⟨same, alike⟩ :=
      (agree_fill (fun _ => agree_any_equalsEach notNull) place).of_ok run other
    exact ⟨same, Sql.Condition.outcome_eq_iff.1 alike⟩

end

end Compile

namespace Sample

/-- Books without a prequel that passes a filter. -/
def noPrequel : Request.Filter.Place := .not (.has ["prequels"] .here)

def titles : List Json := [.string "Alice", .string "Sylvie"]

/-- The last book, which has no sequel. -/
def last : Row := row 2 "Looking-Glass" .null

theorem last_stored : last ∈ database.rowsOf ⟨"book", book⟩ :=
  List.mem_cons_of_mem _ (List.mem_cons_self ..)

theorem last_shown : Resource.Shows ⟨"book", book⟩
    ((Bound.empty.bind (some (tableAlias 1)) last) (some (tableAlias 1))) last := by
  rw [Bound.bind_self]
  exact .refl _ _

end Sample

namespace Compile

theorem any_equalsEach_books :
    Visited Sample.context ⟨"book", .table Sample.books⟩ ⟨1, 0, some [], []⟩ ∧
      Sample.titles ≠ [] ∧ Json.null ∉ Sample.titles ∧ ∃ (a b : Sql.Condition) (q : Progress),
        condition Sample.context ⟨"book", .table Sample.books⟩
          (Sample.noPrequel.fill (.any ["title"] Sample.titles)) ⟨1, 0, some [], []⟩ = .ok a q ∧
        condition Sample.context ⟨"book", .table Sample.books⟩
          (Sample.noPrequel.fill (.equalsEach ["title"] Sample.titles)) ⟨1, 0, some [], []⟩ =
            .ok b q ∧
        ∀ g db e, a.truth g db e = b.truth g db e := by
  have some : Sample.titles ≠ [] := List.cons_ne_nil _ _
  have notNull : Json.null ∉ Sample.titles := by decide
  have alike := any_equalsEach Sample.visited ["title"] some Sample.noPrequel
  exact ⟨Sample.visited, some, notNull, _, _, _, rfl, rfl, (alike.2 notNull rfl rfl).2⟩

/-- The title of the sequel, of which there is none, is none of the values in a list of null, but
equal to null. -/
theorem any_misses_null : ∃ (a b : Sql.Condition) (q s : Progress) (e : Bound),
    condition Sample.context ⟨"book", .table Sample.books⟩ (.any ["sequel", "title"] [.null])
      ⟨1, 0, some [], []⟩ = .ok a q ∧
    condition Sample.context ⟨"book", .table Sample.books⟩ (.equalsEach ["sequel", "title"] [.null])
      ⟨1, 0, some [], []⟩ = .ok b s ∧
    q.joins = s.joins ∧
    e ∈ Sql.joinAll Sample.engine Sample.database (q.joins.map (·.join))
      (Bound.empty.bind (some (tableAlias 1)) Sample.last) ∧
    a.truth Sample.engine Sample.database e = .unknown ∧
    b.truth Sample.engine Sample.database e = .true := by
  obtain ⟨r, sound⟩ := Sample.visited.sound Sample.honours
  obtain rfl : r = ⟨"book", Sample.book⟩ := Sample.findResource_eq sound.named
  have kept := keeps_condition Sample.honours sound (FitsFields.any _ _)
  obtain ⟨sound', -, _, -, listed⟩ := (kept (.any ["sequel", "title"] [.null])).of_ok rfl
  obtain ⟨other, -, _, -, compared⟩ := (kept (.equalsEach ["sequel", "title"] [.null])).of_ok rfl
  obtain ⟨e, joined⟩ := List.exists_mem_of_ne_nil _
    (sound'.linked.joinAll_ne_nil Sample.honours sound.named Sample.last_stored Sample.last_shown)
  refine ⟨_, _, _, _, e, rfl, rfl, rfl, joined, ?_, ?_⟩
  · rw [listed.here sound' Sample.last_stored Sample.last_shown joined]
    rfl
  · rw [compared.here other Sample.last_stored Sample.last_shown joined]
    rfl

end Compile

end ResourceSql
