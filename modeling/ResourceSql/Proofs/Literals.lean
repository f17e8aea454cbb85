/-
Literal values of requests. Requests are alike if they differ in nothing but
their literal values, of which only it stays which ones are null and how many
there are (`Request.masked`). Queries that are alike are compiled to selects in
which the same can be seen (`agree_rows`, `agree_rowCount`): wherever a literal
steers what is compiled, only whether it is null does so.
-/
import ResourceSql.Proofs.Agreement
import ResourceSql.Proofs.Commands
import ResourceSql.Proofs.Visible

namespace ResourceSql

/-! ## Requests without their literal values -/

/-- A value of which only it is left whether it is null. -/
def Json.masked (v : Json) : Json := if v.isNull then .null else .bool true

theorem Json.isNull_masked (v : Json) : v.masked.isNull = v.isNull := by
  cases v <;> rfl

theorem Json.isNull_of_masked {v w : Json} (alike : v.masked = w.masked) : v.isNull = w.isNull := by
  rw [← v.isNull_masked, alike, w.isNull_masked]

namespace Request

def Operand.masked : Operand → Operand
  | value v => value v.masked
  | o => o

mutual

/-- A filter without its literal values. Of a list of values its length is left. -/
def Filter.masked : Filter → Filter
  | .and terms => .and (maskedFilters terms)
  | .or terms => .or (maskedFilters terms)
  | .not filter => .not filter.masked
  | .comparison operator left right => .comparison operator left.masked right.masked
  | .textMatch place path _ => .textMatch place path ""
  | .any path values => .any path (values.map fun _ => .null)
  | .has path filter => .has path (maskedFilter filter)

def maskedFilter : Option Filter → Option Filter
  | none => none
  | some filter => some filter.masked

def maskedFilters : List Filter → List Filter
  | [] => []
  | filter :: filters => filter.masked :: maskedFilters filters

end

theorem maskedFilter_eq_map (filter : Option Filter) :
    maskedFilter filter = filter.map Filter.masked := by
  cases filter <;> rfl

def Query.masked (q : Query) : Query :=
  { q with id := q.id.map Json.masked, filter := maskedFilter q.filter }

/-- Queries that are alike differ in their identifiers and filters only. -/
theorem Query.of_masked {q q' : Query} (alike : q.masked = q'.masked) :
    ∃ id filter, q' = { q with id, filter } ∧ q.id.map Json.masked = id.map Json.masked ∧
      maskedFilter q.filter = maskedFilter filter := by
  obtain ⟨name, id, filter, sort, includes, fields, window⟩ := q
  obtain ⟨name', id', filter', sort', includes', fields', window'⟩ := q'
  obtain ⟨rfl, sameId, sameFilter, rfl, rfl, rfl, rfl⟩ := Query.mk.inj alike
  exact ⟨id', filter', rfl, sameId, sameFilter⟩

def RelationshipData.masked : RelationshipData → RelationshipData
  | many ids => many (ids.map fun _ => .null)
  | one id => one id.masked

end Request

/-- The values of a map changed one by one, under the same names. -/
def NameMap.mapValues {α β : Type} (f : α → β) (map : NameMap α) : NameMap β :=
  ⟨map.entries.map fun (name, value) => (name, f value), List.pairwise_map.2 map.ascending⟩

namespace Request

def Mutation.masked : Mutation → Mutation
  | insert name attributes relationships =>
    insert name (attributes.mapValues Json.masked) (relationships.mapValues RelationshipData.masked)
  | update name id attributes relationships =>
    update name id.masked (attributes.mapValues Json.masked)
      (relationships.mapValues RelationshipData.masked)
  | delete name id => delete name id.masked
  | setRelationship name id relationship data =>
    setRelationship name id.masked relationship data.masked
  | addToRelationship name id relationship ids =>
    addToRelationship name id.masked relationship (ids.map fun _ => .null)
  | removeFromRelationship name id relationship ids =>
    removeFromRelationship name id.masked relationship (ids.map fun _ => .null)

end Request

/-- A request without its literal values. -/
def Request.masked : Request → Request
  | rows q => rows q.masked
  | count q => count q.masked
  | mutation m => mutation m.masked

/-- A side of a comparison without its value. -/
def Side.masked : Side → Side
  | value _ => value .null
  | s => s

/-- The type of a comparison does not depend on its values. -/
theorem Side.typing_masked (left right : Side) :
    Known.typing left.masked.known right.masked.known = Known.typing left.known right.known := by
  cases left <;> cases right <;> rfl

namespace Compile

open Sql (Condition Assignment Statement)

section

variable {c : Context} {d : Dialect} {root : Occurrence} {resource : Resource} {table : Sql.Table}

/-! ## Values -/

theorem agree_bindValue (value value' : Value) :
    Agree Sql.Parameter.visible (bindValue value) (bindValue value') := by
  refine ⟨fun run other => ?_⟩
  cases run
  cases other
  exact ⟨rfl, rfl⟩

theorem agree_bindId (resource : Resource) (id id' : Json) :
    Agree Sql.Parameter.visible (bindId c resource id) (bindId c resource id') :=
  .bind_same fun _ => .guard fun _ _ => .bind .ofExcept fun _ _ _ => agree_bindValue _ _

/-- What is bound, as an operand. -/
theorem agree_parameter {x y : Compile Sql.Parameter} (h : Agree Sql.Parameter.visible x y) :
    Agree (Sql.Operand.visible d) (do return .parameter (← x)) (do return .parameter (← y)) :=
  .bind h fun _ _ same => .pure (congrArg Sql.Operand.parameter same)

/-- Operands that are bound for the values of lists of one length. -/
theorem agree_operands {step step' : Json → Compile Sql.Operand} {values values' : List Json}
    (alike : values.map (fun _ => Json.null) = values'.map fun _ => Json.null)
    (each : ∀ value value', Agree (Sql.Operand.visible d) (step value) (step' value')) :
    Agree (Sql.visibleOperands d) (forEach step values) (forEach step' values') := by
  have all := Agree.forEach alike fun value value' _ => each value value'
  rw [← funext (Sql.visibleOperands_eq_map d)] at all
  exact all

/-! ## Conditions -/

theorem agree_side {operand operand' : Request.Operand} (alike : operand.masked = operand'.masked) :
    Agree Side.masked (side c root operand) (side c root operand') := by
  have side_value (v : Json) :
      side c root (.value v) = pure (if v.isNull then .null else .value v) := by
    cases v <;> rfl
  cases operand with
  | value v =>
    cases operand' with
    | value w =>
      have null := Json.isNull_of_masked (Request.Operand.value.inj alike)
      rw [side_value, side_value, null]
      refine .pure ?_
      cases w.isNull <;> rfl
    | field _ | count _ | null => cases alike
  | field path | count path | null =>
    cases operand' with
    | value w => cases alike
    | field _ | count _ | null =>
      -- sides of different kinds are not alike
      cases alike <;> exact .same

theorem agree_bindSide {typing : Option Attribute} {s s' : Side} (alike : s.masked = s'.masked) :
    Agree (Sql.Operand.visible d) (bindSide c typing s) (bindSide c typing s') := by
  cases s with
  | value v =>
    cases s' with
    | value w =>
      exact .bind .ofExcept fun value value' _ => agree_parameter (agree_bindValue value value')
    | column _ _ | count _ | null => cases alike
  | column _ _ | count _ | null =>
    cases s' with
    | value w => cases alike
    | column _ _ | count _ | null =>
      -- sides of different kinds are not alike
      cases alike <;> exact .same

theorem agree_comparison {operator : Comparison} {left left' right right' : Request.Operand}
    (alikeLeft : left.masked = left'.masked) (alikeRight : right.masked = right'.masked) :
    Agree (Condition.visible d) (comparison c root operator left right)
      (comparison c root operator left' right') := by
  refine .bind (agree_side alikeLeft) fun s s' sameLeft => ?_
  refine .bind (agree_side alikeRight) fun t t' sameRight => ?_
  have typed : Known.typing s.known t.known = Known.typing s'.known t'.known := by
    rw [← Side.typing_masked, sameLeft, sameRight, Side.typing_masked]
  rw [typed]
  refine .bind_same fun typing => .bind .ofExcept fun _ _ _ => ?_
  refine .bind (agree_bindSide (d := d) sameLeft) fun x x' first => ?_
  refine .bind (agree_bindSide (d := d) sameRight) fun y y' second => ?_
  exact .pure (Sql.visible_comparison operator first second)

theorem agree_textMatch (place : TextMatch) (path : List String) (text text' : String) :
    Agree (Condition.visible d) (textMatch c root place path text)
      (textMatch c root place path text') := by
  refine .bind_same fun (column, held) => .guard fun _ _ => ?_
  refine .bind (agree_bindValue _ _) fun pattern pattern' same => .pure ?_
  rw [Condition.visible, Condition.visible, same]

theorem agree_anyOf {path : List String} {values values' : List Json}
    (alike : values.map (fun _ => Json.null) = values'.map fun _ => Json.null) :
    Agree (Condition.visible d) (anyOf c root path values) (anyOf c root path values') := by
  refine .guard fun _ _ => .bind_same fun (column, held) => ?_
  refine .bind (agree_operands (d := d) alike fun value value' => ?_) fun operands operands' same => ?_
  · exact .bind .ofExcept fun bound bound' _ => agree_parameter (agree_bindValue bound bound')
  · exact .pure (congrArg (Condition.isIn column.visible) same)

theorem agree_joined {connective : Connective} {conditions conditions' : List Condition}
    (alike : conditions.map (·.visible d) = conditions'.map (·.visible d)) :
    Agree (Condition.visible d) (joined connective conditions) (joined connective conditions') := by
  refine ⟨fun run other => ?_⟩
  obtain ⟨made, rfl⟩ := joined_run run
  obtain ⟨made', rfl⟩ := joined_run other
  have visible := Sql.visible_combine d connective conditions
  have visible' := Sql.visible_combine d connective conditions'
  rw [made, alike] at visible
  rw [made'] at visible'
  exact ⟨rfl, Option.some.inj (visible.trans visible'.symm)⟩

/-- The same can be seen of a related select if it can of the conditions. -/
theorem visible_related {opened : Related} {projection : Sql.Projection} {joins : List PathJoin}
    {conditions conditions' : List Condition}
    (alike : conditions.map (·.visible d) = conditions'.map (·.visible d)) :
    (opened.select projection joins conditions).visible d =
      (opened.select projection joins conditions').visible d := by
  simp [Related.select, Sql.Select.visible, Sql.visible_conjunction?, alike]

mutual

theorem agree_condition (root : Occurrence) : (filter : Request.Filter) → {filter' : Request.Filter} →
    filter.masked = filter'.masked →
      Agree (Condition.visible d) (condition c root filter) (condition c root filter')
  | .and terms, filter', alike => by
    cases filter' with
    | and terms' =>
      have same := Request.Filter.and.inj alike
      exact .bind (agree_conditions root terms same) fun _ _ same => agree_joined same
    | _ => cases alike
  | .or terms, filter', alike => by
    cases filter' with
    | or terms' =>
      have same := Request.Filter.or.inj alike
      exact .bind (agree_conditions root terms same) fun _ _ same => agree_joined same
    | _ => cases alike
  | .not filter, filter', alike => by
    cases filter' with
    | not filter' =>
      have same := Request.Filter.not.inj alike
      exact .bind (agree_condition root filter same) fun _ _ same => .pure (congrArg Condition.not same)
    | _ => cases alike
  | .comparison operator left right, filter', alike => by
    cases filter' with
    | comparison operator' left' right' =>
      obtain ⟨rfl, sameLeft, sameRight⟩ := Request.Filter.comparison.inj alike
      exact agree_comparison sameLeft sameRight
    | _ => cases alike
  | .textMatch place path text, filter', alike => by
    cases filter' with
    | textMatch place' path' text' =>
      obtain ⟨rfl, rfl, -⟩ := Request.Filter.textMatch.inj alike
      exact agree_textMatch place path text text'
    | _ => cases alike
  | .any path values, filter', alike => by
    cases filter' with
    | any path' values' =>
      obtain ⟨rfl, same⟩ := Request.Filter.any.inj alike
      exact agree_anyOf same
    | _ => cases alike
  | .has path filter, filter', alike => by
    cases filter' with
    | has path' filter' =>
      obtain ⟨rfl, same⟩ := Request.Filter.has.inj alike
      exact .bind (agree_relatedSelect root path .one filter same) fun _ _ same =>
        .pure (congrArg Condition.exists same)
    | _ => cases alike

theorem agree_relatedSelect (root : Occurrence) (path : List String) (projection : Sql.Projection) :
    (filter : Option Request.Filter) → {filter' : Option Request.Filter} →
    Request.maskedFilter filter = Request.maskedFilter filter' →
      Agree (Sql.Select.visible d) (relatedSelect c root path projection filter)
        (relatedSelect c root path projection filter')
  | none, filter', alike => by
    cases filter' with
    | none => exact .same
    | some filter' => cases alike
  | some filter, filter', alike => by
    cases filter' with
    | none => cases alike
    | some filter' =>
      refine .bind_same fun opened => ?_
      refine .bind (agree_condition opened.root filter (Option.some.inj alike)).inOwnScope ?_
      intro (inner, joins) (inner', joins') same
      obtain ⟨same, rfl⟩ := Prod.mk.inj same
      exact .pure (visible_related (by simp [same]))

theorem agree_conditions (root : Occurrence) : (filters : List Request.Filter) →
    {filters' : List Request.Filter} →
    Request.maskedFilters filters = Request.maskedFilters filters' →
      Agree (List.map (Condition.visible d)) (conditions c root filters) (conditions c root filters')
  | [], filters', alike => by
    cases filters' with
    | nil => exact .same
    | cons filter' filters' => cases alike
  | filter :: filters, filters', alike => by
    cases filters' with
    | nil => cases alike
    | cons filter' filters' =>
      obtain ⟨head, tail⟩ := List.cons.inj alike
      refine .bind (agree_condition root filter head) fun made made' first => ?_
      refine .bind (agree_conditions root filters tail) fun rest rest' others => .pure ?_
      rw [List.map_cons, List.map_cons, first, others]

end

/-- A column that has to equal the identifier of a resource. -/
theorem agree_equalsId (resource : Resource) (column : Attribute → Sql.Column) (id id' : Json) :
    Agree (Condition.visible d)
      (do
        let primaryKey ← ofExcept resource.primaryKey
        let parameter ← bindId c resource id
        return .equals (.column (column primaryKey)) (.parameter parameter))
      (do
        let primaryKey ← ofExcept resource.primaryKey
        let parameter ← bindId c resource id'
        return .equals (.column (column primaryKey)) (.parameter parameter)) := by
  refine .bind_same fun primaryKey => .bind (agree_bindId resource id id') fun p p' same => .pure ?_
  exact Sql.visible_comparison _ rfl (congrArg Sql.Operand.parameter same)

theorem agree_identity (id id' : Json) :
    Agree (Condition.visible d) (identity c root resource id) (identity c root resource id') :=
  agree_equalsId resource (fun primaryKey => root.column primaryKey.column .scalar) id id'

theorem agree_requestCondition {id id' : Option Json} {filter filter' : Option Request.Filter}
    (alike : id.map Json.masked = id'.map Json.masked)
    (alikeFilter : Request.maskedFilter filter = Request.maskedFilter filter') :
    Agree (Sql.visibleFilter d) (requestCondition c root resource id filter)
      (requestCondition c root resource id' filter') := by
  rw [Request.maskedFilter_eq_map, Request.maskedFilter_eq_map] at alikeFilter
  have first := Agree.optionally (f := identity c root resource) (g := identity c root resource) alike
    fun a b _ => agree_identity (d := d) a b
  have second := Agree.optionally alikeFilter fun a b same =>
    agree_condition (c := c) (d := d) root a same
  refine .bind first fun made made' same => .bind second fun rest rest' others => .pure ?_
  rw [Sql.visible_conjunction?, Sql.visible_conjunction?, List.map_append, List.map_append]
  exact congrArg Sql.conjunction? (by simp [same, others])

/-! ## Queries -/

section

variable {q q' : Request.Query}

theorem agree_joining {x y : Compile Sql.Select} (h : Agree (Sql.Select.visible d) x y) :
    Agree (Sql.Select.visible d) (joining x) (joining y) := by
  refine .bind h.inOwnScope fun (select, joins) (select', joins') same => .pure ?_
  obtain ⟨same, rfl⟩ := Prod.mk.inj same
  cases select
  cases select'
  obtain ⟨projection, source, -, rest⟩ := Sql.Select.mk.inj same
  exact Sql.Select.mk.injEq .. ▸ ⟨projection, source, rfl, rest⟩

theorem agree_plainRows (alike : q.masked = q'.masked) :
    Agree (Sql.Select.visible d) (plainRows c q resource table) (plainRows c q' resource table) := by
  obtain ⟨id, filter, rfl, sameId, sameFilter⟩ := Request.Query.of_masked alike
  refine agree_joining (.bind_same fun _ => ?_)
  refine .bind (agree_requestCondition (d := d) sameId sameFilter) fun made made' same => ?_
  refine .bind_same fun terms => .bind_same fun projection => .pure ?_
  simp [Sql.Select.visible, Sql.Select.simple, same]

theorem agree_page (alike : q.masked = q'.masked) :
    Agree (Sql.Select.visible d) (page c q resource table) (page c q' resource table) := by
  obtain ⟨id, filter, rfl, sameId, sameFilter⟩ := Request.Query.of_masked alike
  refine agree_joining ?_
  refine .bind (agree_requestCondition (d := d) sameId sameFilter) fun made made' same => ?_
  refine .bind_same fun terms => .bind_same fun columns => .pure ?_
  simp [Sql.Select.visible, Sql.Select.simple, same]

theorem agree_pagedRows (alike : q.masked = q'.masked) :
    Agree (Sql.Select.visible d) (pagedRows c q resource table) (pagedRows c q' resource table) := by
  refine .bind (agree_page (d := d) alike) fun made made' same => .bind_same fun aliasName => ?_
  obtain ⟨id, filter, rfl, -⟩ := Request.Query.of_masked alike
  refine agree_joining (.bind_same fun _ => .bind_same fun terms => .bind_same fun projection => ?_)
  have source : Sql.Source.visible d (.select { made with aliasName := some aliasName }) =
      Sql.Source.visible d (.select { made' with aliasName := some aliasName }) := by
    rw [Sql.Source.visible, Sql.Source.visible, Sql.Select.visible_named, Sql.Select.visible_named,
      same]
  exact .pure (by simp only [Sql.Select.visible, Sql.Select.simple, source])

theorem agree_rows (alike : q.masked = q'.masked) :
    Agree (Sql.Select.visible d) (rows c q) (rows c q') := by
  have read (resource : Resource) (table : Sql.Table) (paged : Bool) :
      Agree (Sql.Select.visible d)
        (if paged = true then pagedRows c q resource table else plainRows c q resource table)
        (if paged = true then pagedRows c q' resource table else plainRows c q' resource table) :=
    .ite (fun _ => agree_pagedRows alike) fun _ => agree_plainRows alike
  obtain ⟨id, filter, rfl, -⟩ := Request.Query.of_masked alike
  refine .bind_same fun (resource, table) => .ite (fun _ => ?_) fun _ => ?_
  · exact .bind_same fun paged => read resource table paged
  · exact .bind_same fun paged => read resource table paged

theorem agree_rowCount (alike : q.masked = q'.masked) :
    Agree (Sql.Select.visible d) (rowCount c q) (rowCount c q') := by
  obtain ⟨id, filter, rfl, sameId, sameFilter⟩ := Request.Query.of_masked alike
  refine .bind_same fun (resource, table) => agree_joining ?_
  refine .bind (agree_requestCondition (d := d) sameId sameFilter) fun made made' same => .pure ?_
  simp [Sql.Select.visible, Sql.Select.simple, same]

end

end

end Compile

end ResourceSql
