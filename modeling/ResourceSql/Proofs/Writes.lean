/-
What the statements of mutations change. The conditions that they are made with
read one row only: whether its primary key is an identifier, or one of several, and
whether its foreign key is (`rowIs_truth`, `rowIsAnyOf_truth`, `narrow_truth`). So a
statement changes the rows of one table in a way that can be said of each row
(`detach_makes`, `attach_makes`, `setRelationship_makes`).
-/
import ResourceSql.Proofs.Execution
import ResourceSql.Proofs.Identifiers
import ResourceSql.Proofs.MutationRuns

namespace ResourceSql

/-! ## Changes of rows -/

/-- Gives columns of the row with a primary key other values. -/
def Resource.updated (g : Engine) (r : Resource) (key : Value) (values : List (String × Value)) :
    Change := .inTable (r.table none) fun row =>
  if g.compare .equals (Graph.keyValue r row) key = .true then some (row.setAll values) else some row

/-- Removes the row with a primary key. -/
def Resource.deleted (g : Engine) (r : Resource) (key : Value) : Change :=
  .inTable (r.table none) fun row =>
    if g.compare .equals (Graph.keyValue r row) key = .true then none else some row

/-- A column of its own row that an update gives a value, for an attribute or for a relationship
whose foreign key the row holds. -/
def Resource.Assigns (m : Metadata) (r : Resource) (attributes : NameMap Json)
    (relationships : NameMap Request.RelationshipData) (column : String) : Prop :=
  (∃ name value held, (name, value) ∈ attributes.toList ∧ r.findAttribute name = .ok held ∧
    held.column = column) ∨
  ∃ name data key, (name, data) ∈ relationships.toList ∧ ForeignKey.resolve m r name = .ok key ∧
    key.atLeftSide = true ∧ key.column = column

/-- The identifiers in relationship data; that of no resource at all is null. -/
def Request.RelationshipData.ids : RelationshipData → List Json
  | many ids => ids
  | one id => [id]

namespace Selection

/-- The identifiers that a selection names. -/
def ids : Selection → List Json
  | all => []
  | only ids => ids
  | allExcept ids => ids

/-- Whether a row is selected, where the identifiers stand for values. -/
def chooses (g : Engine) (target : Resource) (values : List Value) : Selection → Row → Truth
  | all, _ => .true
  | only _, row => g.among (Graph.keyValue target row) values
  | allExcept _, row => (g.among (Graph.keyValue target row) values).not

end Selection

namespace ForeignKey

/-- Detaches the rows whose foreign key is an identifier, as far as they are chosen. -/
def detached (g : Engine) (key : ForeignKey) (target : Resource) (owner : Value)
    (chosen : Row → Truth) : Change := .inTable (target.table none) fun row =>
  if (g.compare .equals (row key.column) owner).and (chosen row) = .true then
    if key.nullable then some (row.set key.column .null) else none
  else some row

/-- Attaches the rows whose primary key is among several. -/
def attached (g : Engine) (key : ForeignKey) (target : Resource) (owner : Value)
    (values : List Value) : Change := .inTable (target.table none) fun row =>
  if g.among (Graph.keyValue target row) values = .true then some (row.set key.column owner)
  else some row

/-- Without rows to attach, nothing changes. -/
theorem attached_nil (g : Engine) (key : ForeignKey) (target : Resource) (owner : Value) :
    attached g key target owner [] = .keep := by
  funext schema name row
  simp [attached, Change.inTable, Change.keep, Engine.among, Truth.any]

/-- A row that is to be attached is spared when the others are detached. -/
theorem attached_of_among {g : Engine} {key : ForeignKey} {target : Resource} {owner : Value}
    {values : List Value} {row : Row}
    (chosen : g.among (Graph.keyValue target row) values = .true) :
    ((key.detached g target owner fun row => (g.among (Graph.keyValue target row) values).not).andThen
      (key.attached g target owner values)) (target.table none).schema (target.table none).name row =
        some (row.set key.column owner) := by
  simp [Change.andThen, detached, attached, Truth.and_eq_true_iff, chosen, Truth.not]

end ForeignKey

namespace Sql

/-- An assignment whose value does not depend on what it is executed on. -/
def Assignment.Fixed (a : Assignment) : Prop :=
  ∃ value, ∀ (g : Engine) (db : Database) (e : Bound), a.value.value g db e = value

theorem assign_fixed {assignments : List Assignment} (fixed : ∀ a ∈ assignments, a.Fixed) :
    ∃ values : List (String × Value), values.map (·.1) = assignments.map (·.column.name) ∧
      ∀ (g : Server) db e (row : Row), assign g db e assignments row = row.setAll values := by
  induction assignments with
  | nil => exact ⟨[], rfl, fun g db e row => rfl⟩
  | cons a assignments ih =>
    obtain ⟨⟨value, same⟩, rest⟩ := List.forall_mem_cons.1 fixed
    obtain ⟨values, columns, assigned⟩ := ih rest
    refine ⟨(a.column.name, value) :: values, by rw [List.map_cons, columns, List.map_cons], ?_⟩
    intro g db e row
    rw [assign, same, assigned, Row.setAll]

end Sql

theorem Progress.Remembers.of_memory {m : Metadata} {p q : Progress} (h : p.Remembers m)
    (same : q.memory = p.memory) : q.Remembers m := by
  unfold Remembers
  rw [same]
  exact h

theorem Progress.remembers_start (m : Metadata) : Progress.Remembers m .start := by
  intro memory remembered name relationship key member
  cases remembered
  cases member

/-- A row as a statement without aliases sees it. -/
abbrev Row.alone (row : Row) : Bound := Bound.empty.bind none row

namespace Compile

variable {c : Context} {p q : Progress} {r target : Resource} {key : ForeignKey} {id : Json}
  {made : Sql.Condition} {statement : Sql.Statement} {statements : List Sql.Statement}

/-- A step for each element, each of which keeps what holds of the progress. -/
theorem forEach_run {α β : Type} {step : α → Compile β} (kept : Progress → Prop)
    (good : α → β → Prop) {given : List α} {made : List β}
    (each : ∀ a ∈ given, ∀ b p q, kept p → step a p = .ok b q → kept q ∧ good a b) (start : kept p)
    (run : forEach step given p = .ok made q) : kept q ∧ List.Forall₂ good given made := by
  induction given generalizing made p with
  | nil =>
    cases run
    exact ⟨start, .nil⟩
  | cons a given ih =>
    simp only [forEach, bind_eq_ok] at run
    obtain ⟨b, p₁, first, bs, p₂, rest, run⟩ := run
    cases run
    obtain ⟨here, later⟩ := List.forall_mem_cons.1 each
    obtain ⟨next, fine⟩ := here b p p₁ start first
    obtain ⟨last, all⟩ := ih later next rest
    exact ⟨last, .cons fine all⟩

/-- The foreign key of a relationship is the resolved one. -/
theorem foreignKey_found {relationship : String} (remembers : p.Remembers c.metadata)
    (found : c.metadata.findResource r.name = .ok r)
    (run : foreignKey c.metadata r relationship p = .ok key q) :
    ForeignKey.resolve c.metadata r relationship = .ok key ∧ q.Remembers c.metadata := by
  obtain ⟨memory, remembers, same⟩ := foreignKey_apply remembers found relationship
  rw [same] at run
  cases resolved : ForeignKey.resolve c.metadata r relationship with
  | error e =>
    rw [resolved] at run
    cases run
  | ok found =>
    rw [resolved] at run
    cases run
    exact ⟨rfl, remembers⟩

/-! ## Conditions on single rows -/

theorem truth_equalsParameter (g : Engine) (db : Database) (t : Sql.Table) (row : Row)
    (column : String) (role : Sql.ColumnRole) (parameter : Sql.Parameter) :
    (Sql.Condition.equals (.column (.ofTable ((⟨t.schema, t.name, none⟩ : Sql.Table).column column role)))
      (.parameter parameter)).truth g db row.alone =
        g.compare .equals (row column) parameter.value := by
  simp [Sql.Condition.equals, Sql.Condition.truth, Sql.Operand.value, Bound.column, Sql.Table.column,
    Sql.Column.aliasName, Sql.Column.name]

theorem rowIs_truth (run : rowIs c r (r.table none) id p = .ok made q) :
    ∃ value, c.metadata.Identifies r id value ∧ q.memory = p.memory ∧ ∀ (g : Engine) db (row : Row),
      made.truth g db row.alone = g.compare .equals (Graph.keyValue r row) value := by
  obtain ⟨primaryKey, parameter, identified, bound, rfl⟩ := rowIs_run run
  obtain ⟨identifies, memory⟩ := bindId_value bound
  refine ⟨parameter.value, identifies, memory, fun g db row => ?_⟩
  rw [Graph.keyValue, identified]
  exact truth_equalsParameter g db (r.table none) row primaryKey.column .scalar parameter

/-- The operands that identifiers are bound as have the values that the identifiers stand for. -/
theorem bindIds_values {ids : List Json} {operands : List Sql.Operand}
    (run : forEach (fun id => do return Sql.Operand.parameter (← bindId c r id)) ids p =
      .ok operands q) :
    ∃ values, List.Forall₂ (c.metadata.Identifies r) ids values ∧ q.memory = p.memory ∧
      ∀ (g : Engine) db e, Sql.operandValues g db operands e = values := by
  obtain ⟨memory, all⟩ := forEach_run (fun s => s.memory = p.memory)
    (fun id operand => ∃ value, c.metadata.Identifies r id value ∧
      ∀ (g : Engine) db e, operand.value g db e = value) (fun id _ operand s s' same run => by
    obtain ⟨parameter, s₁, bound, run⟩ := bind_eq_ok.1 run
    cases run
    obtain ⟨identifies, memory⟩ := bindId_value bound
    exact ⟨memory.trans same, parameter.value, identifies, fun g db e => by rw [Sql.Operand.value]⟩)
    rfl run
  have values : ∃ values, List.Forall₂ (c.metadata.Identifies r) ids values ∧
      ∀ (g : Engine) db e, Sql.operandValues g db operands e = values := by
    clear run
    induction all with
    | nil => exact ⟨[], .nil, fun g db e => rfl⟩
    | cons first _ ih =>
      obtain ⟨value, identifies, same⟩ := first
      obtain ⟨values, rest, all⟩ := ih
      exact ⟨value :: values, .cons identifies rest, fun g db e => by
        rw [Sql.operandValues, same, all]⟩
  obtain ⟨values, identify, same⟩ := values
  exact ⟨values, identify, memory, same⟩

theorem rowIsAnyOf_truth {ids : List Json}
    (run : rowIsAnyOf c r (r.table none) ids p = .ok made q) :
    ∃ values, List.Forall₂ (c.metadata.Identifies r) ids values ∧ q.memory = p.memory ∧
      ∀ (g : Engine) db (row : Row),
        made.truth g db row.alone = g.among (Graph.keyValue r row) values := by
  obtain ⟨primaryKey, operands, identified, bound, rfl⟩ := rowIsAnyOf_run run
  obtain ⟨values, identify, memory, same⟩ := bindIds_values bound
  refine ⟨values, identify, memory, fun g db row => ?_⟩
  rw [Sql.Condition.truth, same, Graph.keyValue, identified]
  simp [Bound.column, Sql.Table.column, Sql.Column.aliasName, Sql.Column.name, Resource.table]

/-- The rows that are left of the owned ones are those that are chosen. -/
theorem narrow_truth {owned : Sql.Condition} {selection : Selection}
    (run : narrow c target (target.table none) owned selection p = .ok made q) :
    ∃ values, List.Forall₂ (c.metadata.Identifies target) selection.ids values ∧
      q.memory = p.memory ∧ ∀ (g : Engine) db (row : Row), made.truth g db row.alone =
        (owned.truth g db row.alone).and (selection.chooses g target values row) := by
  rcases narrow_run run with ⟨rfl | rfl, rfl, rfl⟩ | ⟨ids, among, first, rest⟩
  · exact ⟨[], .nil, rfl, fun g db row => (Truth.and_true _).symm⟩
  · exact ⟨[], .nil, rfl, fun g db row => (Truth.and_true _).symm⟩
  · obtain ⟨values, identify, memory, same⟩ := rowIsAnyOf_truth first
    rcases rest with ⟨rfl, rfl⟩ | ⟨rfl, -, rfl⟩
    · refine ⟨values, identify, memory, fun g db row => ?_⟩
      simp [Sql.Condition.truth, Sql.truths, Truth.all, same, Selection.chooses]
    · refine ⟨values, identify, memory, fun g db row => ?_⟩
      simp [Sql.Condition.truth, Sql.truths, Truth.all, same, Selection.chooses]

/-! ## Statements on related tables -/

/-- Detaching clears the foreign keys of the chosen rows, or removes these rows if the key is
required, which the relationship has to allow. -/
theorem detach_makes {behavior : DeleteBehavior} {selection : Selection}
    (run : detach c r key behavior id selection p = .ok statement q) :
    ∃ target owner values, c.metadata.findResource key.target = .ok target ∧
      c.metadata.Identifies r id owner ∧
      List.Forall₂ (c.metadata.Identifies target) selection.ids values ∧
      (key.nullable = true ∨ behavior = .cascade) ∧ q.memory = p.memory ∧
      ∀ g : Server, Sql.MakeAll g [statement]
        (key.detached g.toEngine target owner (selection.chooses g.toEngine target values)) := by
  obtain ⟨target, parameter, p₁, filter, found, bound, narrowed, rest⟩ := detach_run run
  obtain ⟨identifies, memory⟩ := bindId_value bound
  obtain ⟨values, identify, memory', same⟩ := narrow_truth narrowed
  have holds : ∀ (g : Engine) db (row : Row), filter.truth g db row.alone =
      (g.compare .equals (row key.column) parameter.value).and
        (selection.chooses g target values row) := by
    intro g db row
    rw [same]
    exact congrArg (Truth.and · _)
      (truth_equalsParameter g db (target.table none) row key.column .foreignKey parameter)
  refine ⟨target, parameter.value, values, found, identifies, identify, ?_, memory'.trans memory,
    fun g => ?_⟩
  · rcases rest with ⟨nullable, -⟩ | ⟨-, cascades, -⟩
    · exact .inl nullable
    · exact .inr cascades
  · rcases rest with ⟨nullable, rfl⟩ | ⟨required, -, rfl⟩
    · refine .update fun db row => ?_
      show (if filter.truth g.toEngine db row.alone = .true then _ else _) = _
      simp [holds, nullable, Sql.assign, Sql.Operand.value, Sql.Table.column]
    · refine .delete fun db row => ?_
      show (if filter.truth g.toEngine db row.alone = .true then _ else _) = _
      simp [holds, required]

theorem attach_makes {ids : List Json} (run : attach c r key id ids p = .ok statement q) :
    ∃ target owner values, c.metadata.findResource key.target = .ok target ∧
      c.metadata.Identifies r id owner ∧ List.Forall₂ (c.metadata.Identifies target) ids values ∧
      q.memory = p.memory ∧
      ∀ g : Server, Sql.MakeAll g [statement] (key.attached g.toEngine target owner values) := by
  obtain ⟨target, parameter, p₁, filter, found, bound, among, rfl⟩ := attach_run run
  obtain ⟨identifies, memory⟩ := bindId_value bound
  obtain ⟨values, identify, memory', same⟩ := rowIsAnyOf_truth among
  refine ⟨target, parameter.value, values, found, identifies, identify, memory'.trans memory,
    fun g => .update fun db row => ?_⟩
  show (if filter.truth g.toEngine db row.alone = .true then _ else _) = _
  simp [same, Sql.assign, Sql.Operand.value, Sql.Table.column]

/-! ## Assignments -/

theorem assignKey_fixed {table : Sql.Table} {data : Request.RelationshipData}
    {assignment : Sql.Assignment} (run : assignKey c table key data p = .ok assignment q) :
    assignment.column.name = key.column ∧ assignment.Fixed ∧ q.memory = p.memory := by
  obtain ⟨column, rest⟩ := assignKey_run run
  refine ⟨by rw [column, Sql.Table.column], ?_⟩
  obtain ⟨-, -, value, rfl⟩ | ⟨id, target, parameter, -, -, bound, value⟩ := rest
  · exact ⟨⟨.null, fun g db e => by rw [value, Sql.Operand.value]⟩, rfl⟩
  · exact ⟨⟨parameter.value, fun g db e => by rw [value, Sql.Operand.value]⟩, (bindId_value bound).2⟩

theorem assignAttribute_fixed {table : Sql.Table} {name : String} {value : Json}
    {assignment : Sql.Assignment} (run : assignAttribute c r table name value p = .ok assignment q) :
    (∃ held, r.findAttribute name = .ok held ∧ assignment.column.name = held.column) ∧
      assignment.Fixed ∧ q.memory = p.memory := by
  obtain ⟨held, found, column, rest⟩ := assignAttribute_run run
  refine ⟨⟨held, found, by rw [column, Sql.Table.column]⟩, ?_⟩
  obtain ⟨-, value, rfl⟩ | ⟨literal, parameter, -, -, bound, value⟩ := rest
  · exact ⟨⟨.null, fun g db e => by rw [value, Sql.Operand.value]⟩, rfl⟩
  · cases bound
    exact ⟨⟨literal, fun g db e => by rw [value, Sql.Operand.value]; rfl⟩, rfl⟩

theorem assignAttributes_fixed {table : Sql.Table} {attributes : NameMap Json}
    {assignments : List Sql.Assignment}
    (run : assignAttributes c r table attributes p = .ok assignments q) :
    q.memory = p.memory ∧ ∀ a ∈ assignments, a.Fixed ∧ ∃ name value held,
      (name, value) ∈ attributes.toList ∧ r.findAttribute name = .ok held ∧
        a.column.name = held.column := by
  obtain ⟨memory, all⟩ := forEach_run (fun s => s.memory = p.memory)
    (fun entry a => a.Fixed ∧ ∃ held, r.findAttribute entry.1 = .ok held ∧
      a.column.name = held.column) (fun entry _ a s s' same run => by
    obtain ⟨column, fixed, memory⟩ := assignAttribute_fixed run
    exact ⟨memory.trans same, fixed, column⟩) rfl run
  refine ⟨memory, fun a member => ?_⟩
  obtain ⟨⟨name, value⟩, given, fixed, held, found, column⟩ := forall₂_exists_left all member
  exact ⟨fixed, name, value, held, given, found, column⟩

/-- Relationships whose foreign key the row holds are assigned, and the others are left over. -/
theorem assignHeldKeys_fixed {table : Sql.Table} {given others : List (String × Request.RelationshipData)}
    {keys : List Sql.Assignment} (remembers : p.Remembers c.metadata)
    (found : c.metadata.findResource r.name = .ok r)
    (run : assignHeldKeys c r table given p = .ok (keys, others) q) :
    q.Remembers c.metadata ∧
      (∀ a ∈ keys, a.Fixed ∧ ∃ name data key, (name, data) ∈ given ∧
        ForeignKey.resolve c.metadata r name = .ok key ∧ key.atLeftSide = true ∧
          a.column.name = key.column) ∧
      others.Sublist given ∧
      ∀ name data key, (name, data) ∈ given → ForeignKey.resolve c.metadata r name = .ok key →
        key.atLeftSide = false → (name, data) ∈ others := by
  induction given generalizing keys others p with
  | nil =>
    cases run
    exact ⟨remembers, by simp⟩
  | cons entry given ih =>
    obtain ⟨name, data⟩ := entry
    simp only [assignHeldKeys, bind_eq_ok] at run
    obtain ⟨key, p₁, looked, run⟩ := run
    obtain ⟨resolved, remembers⟩ := foreignKey_found remembers found looked
    split at run
    · next held =>
      obtain ⟨toOne, left⟩ := Bool.and_eq_true_iff.1 held
      simp only [bind_eq_ok] at run
      obtain ⟨assignment, p₂, assigned, ⟨keys, others⟩, p₃, rest, run⟩ := run
      cases run
      obtain ⟨column, fixed, memory⟩ := assignKey_fixed assigned
      obtain ⟨remembers, all, kept, later⟩ := ih (remembers.of_memory memory) rest
      refine ⟨remembers, ?_, kept.cons _, ?_⟩
      · intro a member
        rcases List.mem_cons.1 member with rfl | member
        · exact ⟨fixed, name, data, key, List.mem_cons_self .., resolved, left, column⟩
        · obtain ⟨fixed, name, data, key, member, rest⟩ := all a member
          exact ⟨fixed, name, data, key, List.mem_cons_of_mem _ member, rest⟩
      · intro name' data' key' member resolved' right
        rcases List.mem_cons.1 member with same | member
        · cases same
          obtain rfl := Except.ok.inj (resolved.symm.trans resolved')
          rw [left] at right
          cases right
        · exact later name' data' key' member resolved' right
    · simp only [bind_eq_ok] at run
      obtain ⟨⟨keys, others⟩, p₂, rest, run⟩ := run
      cases run
      obtain ⟨remembers, all, kept, later⟩ := ih remembers rest
      refine ⟨remembers, ?_, kept.cons_cons _, ?_⟩
      · intro a member
        obtain ⟨fixed, name, data, key, member, rest⟩ := all a member
        exact ⟨fixed, name, data, key, List.mem_cons_of_mem _ member, rest⟩
      · intro name' data' key' member resolved' right
        rcases List.mem_cons.1 member with same | member
        · rw [same]
          exact List.mem_cons_self ..
        · exact List.mem_cons_of_mem _ (later name' data' key' member resolved' right)

/-- An update of the row with an identifier gives the assigned columns fixed values. -/
theorem update_makes {assignments : List Sql.Assignment} (fixed : ∀ a ∈ assignments, a.Fixed)
    (run : rowIs c r (r.table none) id p = .ok made q) :
    ∃ owner values, c.metadata.Identifies r id owner ∧ q.memory = p.memory ∧
      values.map (·.1) = assignments.map (·.column.name) ∧
      ∀ g : Server, Sql.MakeAll g [.update ⟨r.table none, assignments, made⟩]
        (r.updated g.toEngine owner values) := by
  obtain ⟨owner, identifies, memory, same⟩ := rowIs_truth run
  obtain ⟨values, columns, assigned⟩ := Sql.assign_fixed fixed
  refine ⟨owner, values, identifies, memory, columns, fun g => .update fun db row => ?_⟩
  rw [assigned]
  show (if made.truth g.toEngine db row.alone = .true then _ else _) = _
  rw [same]

/-- A delete of the row with an identifier. -/
theorem delete_makes (run : rowIs c r (r.table none) id p = .ok made q) :
    ∃ owner, c.metadata.Identifies r id owner ∧ q.memory = p.memory ∧ ∀ g : Server,
      Sql.MakeAll g [.delete ⟨r.table none, made⟩] (r.deleted g.toEngine owner) := by
  obtain ⟨owner, identifies, memory, same⟩ := rowIs_truth run
  refine ⟨owner, identifies, memory, fun g => .delete fun db row => ?_⟩
  show (if made.truth g.toEngine db row.alone = .true then _ else _) = _
  rw [same]

/-! ## Relationships -/

/-- The related identifiers are those in the data that are not null. -/
theorem relatedIds_eq_ok {data : Request.RelationshipData} {ids : List Json}
    (h : relatedIds key data = .ok ids) :
    (∀ {given}, given ∈ ids → given ∈ data.ids) ∧
      ∀ {given}, given ∈ data.ids → given.isNull = false → given ∈ ids := by
  unfold relatedIds at h
  split at h
  · split at h
    · cases h
    · cases h
      exact ⟨fun member => member, fun member _ => member⟩
  · split at h
    · cases h
    · split at h
      · next null =>
        cases h
        constructor
        · intro given member
          cases member
        · intro given member known
          rw [List.mem_singleton.1 member, null] at known
          cases known
      · cases h
        exact ⟨fun member => member, fun member _ => member⟩

/-- Setting a relationship updates the row itself, if that holds the foreign key, or else detaches
what was related before and attaches what is to be related. -/
theorem setRelationship_makes {relationship : String} {data : Request.RelationshipData}
    (remembers : p.Remembers c.metadata) (found : c.metadata.findResource r.name = .ok r)
    (run : setRelationship c r id relationship data p = .ok statements q) :
    q.Remembers c.metadata ∧ ∃ key, ForeignKey.resolve c.metadata r relationship = .ok key ∧
      (key.atLeftSide = true ∧ (∃ owner value, c.metadata.Identifies r id owner ∧
          ∀ g : Server, Sql.MakeAll g statements (r.updated g.toEngine owner [(key.column, value)])) ∨
        key.atLeftSide = false ∧ ∃ target ids declared owner values,
          c.metadata.findResource key.target = .ok target ∧ relatedIds key data = .ok ids ∧
          r.findRelationship relationship = .ok declared ∧
          (key.nullable = true ∨ declared.deleteBehavior = .cascade) ∧
          c.metadata.Identifies r id owner ∧
          List.Forall₂ (c.metadata.Identifies target) ids values ∧
          ∀ g : Server, Sql.MakeAll g statements
            ((key.detached g.toEngine target owner fun row =>
              (g.among (Graph.keyValue target row) values).not).andThen
              (key.attached g.toEngine target owner values))) := by
  obtain ⟨key, p₁, looked, rest⟩ := setRelationship_run run
  obtain ⟨resolved, remembers⟩ := foreignKey_found remembers found looked
  rcases rest with ⟨left, assignment, p₂, filter, assigned, own, rfl⟩ |
    ⟨right, ids, declared, detached, p₂, related, declares, first, rest⟩
  · obtain ⟨column, fixed, memory⟩ := assignKey_fixed assigned
    have single : ∀ a ∈ [assignment], a.Fixed := by simpa using fixed
    obtain ⟨owner, values, identifies, memory', columns, makes⟩ := update_makes single own
    have length : values.length = 1 := by simpa using congrArg List.length columns
    obtain ⟨⟨name, value⟩, rfl⟩ := List.length_eq_one_iff.1 length
    obtain rfl : name = key.column := (List.cons.inj columns).1.trans column
    exact ⟨remembers.of_memory (memory'.trans memory), key, resolved,
      .inl ⟨left, owner, value, identifies, makes⟩⟩
  · obtain ⟨target, owner, values, known, identifies, identify, allowed, memory, makes⟩ :=
      detach_makes first
    rcases rest with ⟨rfl, rfl, rfl⟩ | ⟨attached, -, second, rfl⟩
    · obtain rfl := List.forall₂_nil_left_iff.1 identify
      refine ⟨remembers.of_memory memory, key, resolved, .inr ⟨right, target, [], declared, owner, [],
        known, related, declares, allowed, identifies, .nil, fun g => ?_⟩⟩
      have kept := (makes g).append .nil
      rw [← key.attached_nil g.toEngine target owner] at kept
      exact kept
    · obtain ⟨target', owner', values', known', identifies', identify', memory', makes'⟩ :=
        attach_makes second
      obtain rfl := Except.ok.inj (known.symm.trans known')
      obtain rfl := identifies.unique identifies'
      obtain rfl := Metadata.Identifies.unique_all identify identify'
      exact ⟨remembers.of_memory (memory'.trans memory), key, resolved, .inr ⟨right, target, ids,
        declared, owner, values, known, related, declares, allowed, identifies, identify,
        fun g => (makes g).append (makes' g)⟩⟩

/-- An update changes the row itself, if anything in it is given a value, before it sets the
relationships whose foreign keys the row does not hold. -/
theorem update_makes_own {name : String} {attributes : NameMap Json}
    {relationships : NameMap Request.RelationshipData} (remembers : p.Remembers c.metadata)
    (run : update c name id attributes relationships p = .ok statements q) :
    ∃ r own others linked p₁, c.metadata.findResource name = .ok r ∧ p₁.Remembers c.metadata ∧
      others.Sublist relationships.toList ∧
      (∀ name data key, (name, data) ∈ relationships.toList →
        ForeignKey.resolve c.metadata r name = .ok key → key.atLeftSide = false →
          (name, data) ∈ others) ∧
      forEach (fun (name, data) => setRelationship c r id name data) others p₁ = .ok linked q ∧
      statements = own ++ linked.flatten ∧
      ((∀ g : Server, Sql.MakeAll g own .keep) ∨ ∃ owner values, c.metadata.Identifies r id owner ∧
        (∀ entry ∈ values, r.Assigns c.metadata attributes relationships entry.1) ∧
        ∀ g : Server, Sql.MakeAll g own (r.updated g.toEngine owner values)) := by
  obtain ⟨r, attributed, p₁, keys, others, p₂, own, p₃, linked, found, assigned, held, changed, related,
    rfl⟩ := update_run run
  obtain ⟨memory, valued⟩ := assignAttributes_fixed assigned
  have itself := Metadata.findResource_self found
  obtain ⟨remembers, keyed, kept, left⟩ := assignHeldKeys_fixed (remembers.of_memory memory) itself held
  rcases changed with ⟨-, rfl, rfl⟩ | ⟨filter, -, first, rfl⟩
  · exact ⟨r, [], others, linked, p₃, found, remembers, kept, left, related, rfl, .inl fun g => .nil⟩
  · have fixed : ∀ a ∈ attributed ++ keys, a.Fixed := by
      intro a member
      rcases List.mem_append.1 member with member | member
      · exact (valued a member).1
      · exact (keyed a member).1
    obtain ⟨owner, values, identifies, memory', columns, makes⟩ := update_makes fixed first
    refine ⟨r, _, others, linked, p₃, found, remembers.of_memory memory', kept, left, related, rfl,
      .inr ⟨owner, values, identifies, fun entry member => ?_, makes⟩⟩
    have assigned := List.mem_map_of_mem (f := (·.1)) member
    rw [columns] at assigned
    obtain ⟨a, member, column⟩ := List.mem_map.1 assigned
    rw [← column]
    rcases List.mem_append.1 member with member | member
    · obtain ⟨-, name, value, held, given, found, same⟩ := valued a member
      exact .inl ⟨name, value, held, given, found, same.symm⟩
    · obtain ⟨-, name, data, key, given, resolved, left, same⟩ := keyed a member
      exact .inr ⟨name, data, key, given, resolved, left, same.symm⟩

end Compile

namespace Sample

/-- A database whose new rows are empty. -/
def server : Server := { engine with initial := fun _ _ _ => .null }

/-- The identifier of a book. -/
def bookId (n : Int) : Json := .number (.integer n)

theorem identifies_book : context.metadata.Identifies ⟨"book", book⟩ (bookId 2) (.int32 2) :=
  ⟨_, rfl, rfl, rfl⟩

theorem eq_of_compare {a b : Value} (h : engine.compare .equals a b = .true) : a = b := by
  unfold Engine.compare at h
  split at h
  · cases h
  · exact (of_decide_eq_true (Truth.ofBool_eq_true_iff.1 h)).2

end Sample

end ResourceSql
