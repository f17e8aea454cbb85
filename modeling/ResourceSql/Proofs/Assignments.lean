/-
Columns that are assigned. The assignments of an insert or an update come from
two maps, and different names in them may stand for one column: that of two
attributes, or of an attribute and a foreign key. Such a column is assigned as
often as it is named (`nodup_assigned_iff`); every other statement of a mutation
assigns one column at most.
-/
import ResourceSql.Configuration.Consistency
import ResourceSql.Proofs.Writes

namespace ResourceSql

/-- The columns that a statement assigns, in the order of the assignments. -/
def Sql.Statement.assigned : Statement → List String
  | .insert i => i.assignments.map (·.column.name)
  | .update u => u.assignments.map (·.column.name)
  | .select _ | .delete _ => []

namespace Resource

/-- The column of an attribute. -/
def attributeColumn? (r : Resource) (name : String) : Option String :=
  (r.type.attributes.get? name).map (·.column)

/-- The foreign key of a to-one relationship, if the table of the resource holds it. -/
def heldKey? (r : Resource) (name : String) : Option String :=
  (r.type.relationships.get? name).bind fun d =>
    if d.kind = .toOne ∧ d.foreignKey.atLeftSide then some d.foreignKey.column else none

/-- The columns that attributes and relationships of a resource stand for in its own row. -/
def columnsWritten (r : Resource) (attributes : NameMap Json)
    (relationships : NameMap Request.RelationshipData) : List String :=
  attributes.names.filterMap r.attributeColumn? ++ relationships.names.filterMap r.heldKey?

theorem attributeColumn?_of_found {r : Resource} {name : String} {held : Attribute}
    (found : r.findAttribute name = .ok held) : r.attributeColumn? name = some held.column := by
  rw [attributeColumn?, findAttribute_eq_ok.1 found, Option.map_some]

theorem heldKey?_of_resolve {m : Metadata} {r : Resource} {name : String} {key : ForeignKey}
    (resolved : ForeignKey.resolve m r name = .ok key) :
    r.heldKey? name = if key.isToOne && key.atLeftSide then some key.column else none := by
  obtain ⟨d, target, declared, -, rfl⟩ := ForeignKey.resolve_eq_ok.1 resolved
  simp [heldKey?, declared, ForeignKey.isToOne]

end Resource

/-- The type of the row that an insert or an update writes, and what it is given. -/
def Request.Mutation.row :
    Request.Mutation → Option (String × NameMap Json × NameMap Request.RelationshipData)
  | .insert name attributes relationships => some (name, attributes, relationships)
  | .update name _ attributes relationships => some (name, attributes, relationships)
  | _ => none

namespace Compile

variable {c : Context} {p q : Progress} {r : Resource} {key : ForeignKey} {id : Json}
  {table : Sql.Table} {statement : Sql.Statement} {statements : List Sql.Statement}

/-! ## Rows -/

/-- What is seen of what is made is what is looked up for each element. -/
theorem map_eq_filterMap {α β γ : Type} {look : α → Option γ} {seen : β → γ} {given : List α}
    {made : List β} (all : List.Forall₂ (fun a b => look a = some (seen b)) given made) :
    made.map seen = given.filterMap look := by
  induction all with
  | nil => rfl
  | cons same _ ih => rw [List.filterMap_cons_some same, List.map_cons, ih]

theorem assignAttributes_assigned {attributes : NameMap Json} {values : List Sql.Assignment}
    (run : assignAttributes c r table attributes p = .ok values q) :
    q.memory = p.memory ∧
      values.map (·.column.name) = attributes.names.filterMap r.attributeColumn? := by
  obtain ⟨memory, all⟩ := forEach_run (fun s => s.memory = p.memory)
    (fun entry a => r.attributeColumn? entry.1 = some a.column.name)
    (fun entry _ a s s' same run => by
      obtain ⟨⟨held, found, column⟩, -, memory⟩ := assignAttribute_fixed run
      rw [column]
      exact ⟨memory.trans same, Resource.attributeColumn?_of_found found⟩) rfl run
  refine ⟨memory, (map_eq_filterMap all).trans ?_⟩
  rw [NameMap.names, List.filterMap_map]
  rfl

theorem assignNewKeys_assigned {relationships : NameMap Request.RelationshipData}
    {keys : List Sql.Assignment} (remembers : p.Remembers c.metadata)
    (found : c.metadata.findResource r.name = .ok r)
    (run : assignNewKeys c r table relationships p = .ok keys q) :
    keys.map (·.column.name) = relationships.names.filterMap r.heldKey? := by
  obtain ⟨-, all⟩ := forEach_run (fun s => s.Remembers c.metadata)
    (fun entry a => r.heldKey? entry.1 = some a.column.name)
    (fun (name, data) _ a s s' remembers run => by
      obtain ⟨key, p₁, looked, run⟩ := bind_eq_ok.1 run
      obtain ⟨resolved, remembers⟩ := foreignKey_found remembers found looked
      have held := Resource.heldKey?_of_resolve resolved
      cases toOne : key.isToOne with
      | false => simp [toOne, bind_eq_ok] at run
      | true =>
        cases left : key.atLeftSide with
        | false => simp [toOne, left, bind_eq_ok] at run
        | true =>
          simp only [toOne, left] at run held
          obtain ⟨column, -, memory⟩ := assignKey_fixed run
          rw [column]
          exact ⟨remembers.of_memory memory, held⟩) remembers run
  refine (map_eq_filterMap all).trans ?_
  rw [NameMap.names, List.filterMap_map]
  rfl

theorem assignHeldKeys_assigned {given others : List (String × Request.RelationshipData)}
    {keys : List Sql.Assignment} (remembers : p.Remembers c.metadata)
    (found : c.metadata.findResource r.name = .ok r)
    (run : assignHeldKeys c r table given p = .ok (keys, others) q) :
    keys.map (·.column.name) = (given.map (·.1)).filterMap r.heldKey? := by
  induction given generalizing keys others p with
  | nil =>
    cases run
    rfl
  | cons entry given ih =>
    obtain ⟨name, data⟩ := entry
    simp only [assignHeldKeys, bind_eq_ok] at run
    obtain ⟨key, p₁, looked, run⟩ := run
    obtain ⟨resolved, remembers⟩ := foreignKey_found remembers found looked
    have own := Resource.heldKey?_of_resolve resolved
    split at run
    · next held =>
      simp only [bind_eq_ok] at run
      obtain ⟨assignment, p₂, assigned, ⟨keys, others⟩, p₃, rest, run⟩ := run
      cases run
      obtain ⟨column, -, memory⟩ := assignKey_fixed assigned
      rw [if_pos held, ← column] at own
      rw [List.map_cons, List.map_cons, List.filterMap_cons_some own,
        ih (remembers.of_memory memory) rest]
    · next held =>
      simp only [bind_eq_ok] at run
      obtain ⟨⟨keys, others⟩, p₂, rest, run⟩ := run
      cases run
      rw [if_neg held] at own
      rw [List.map_cons, List.filterMap_cons_none own]
      exact ih remembers rest

theorem insert_assigned {name : String} {attributes : NameMap Json}
    {relationships : NameMap Request.RelationshipData} (remembers : p.Remembers c.metadata)
    (run : insert c name attributes relationships p = .ok statements q) :
    ∃ r, c.metadata.findResource name = .ok r ∧
      statements.map (·.assigned) = [r.columnsWritten attributes relationships] := by
  obtain ⟨r, values, p₁, keys, primaryKey, found, assigned, held, -, rfl⟩ := insert_run run
  obtain ⟨memory, columns⟩ := assignAttributes_assigned assigned
  have keyed := assignNewKeys_assigned (remembers.of_memory memory)
    (Metadata.findResource_self found) held
  refine ⟨r, found, ?_⟩
  simp [Sql.Statement.assigned, Resource.columnsWritten, columns, keyed]

/-! ## Relationships -/

theorem detach_assigned {behavior : DeleteBehavior} {selection : Selection}
    (run : detach c r key behavior id selection p = .ok statement q) :
    statement.assigned.Nodup := by
  obtain ⟨target, parameter, p₁, filter, -, -, -, ⟨-, rfl⟩ | ⟨-, -, rfl⟩⟩ := detach_run run
  · simp [Sql.Statement.assigned]
  · exact List.nodup_nil

theorem attach_assigned {ids : List Json} (run : attach c r key id ids p = .ok statement q) :
    statement.assigned.Nodup := by
  obtain ⟨target, parameter, p₁, filter, -, -, -, rfl⟩ := attach_run run
  simp [Sql.Statement.assigned]

/-- The statements that set a relationship assign its foreign key and nothing else. -/
theorem setRelationship_assigned {relationship : String} {data : Request.RelationshipData}
    (run : setRelationship c r id relationship data p = .ok statements q) :
    ∀ s ∈ statements, s.assigned.Nodup := by
  obtain ⟨key, p₁, -, ⟨-, assignment, p₂, filter, -, -, rfl⟩ |
    ⟨-, ids, declared, detached, p₂, -, -, first, rest⟩⟩ := setRelationship_run run
  · simp [Sql.Statement.assigned]
  · have detaches := detach_assigned first
    rcases rest with ⟨-, rfl, -⟩ | ⟨attached, -, second, rfl⟩
    · simpa using detaches
    · simpa using ⟨detaches, attach_assigned second⟩

/-- An update of the row itself assigns the columns that the row is given; if there are none, there
is no such update. -/
theorem update_assigned {name : String} {attributes : NameMap Json}
    {relationships : NameMap Request.RelationshipData} (remembers : p.Remembers c.metadata)
    (run : update c name id attributes relationships p = .ok statements q) :
    ∃ r own linked, c.metadata.findResource name = .ok r ∧ statements = own ++ linked ∧
      (∀ s ∈ linked, s.assigned.Nodup) ∧
      (own = [] ∧ r.columnsWritten attributes relationships = [] ∨
        own.map (·.assigned) = [r.columnsWritten attributes relationships]) := by
  obtain ⟨r, values, p₁, keys, others, p₂, own, p₃, linked, found, assigned, held, changed, related,
    rfl⟩ := update_run run
  obtain ⟨memory, columns⟩ := assignAttributes_assigned assigned
  have keyed := assignHeldKeys_assigned (remembers.of_memory memory)
    (Metadata.findResource_self found) held
  have written : (values ++ keys).map (·.column.name) =
      r.columnsWritten attributes relationships := by
    rw [List.map_append, columns, keyed]
    rfl
  refine ⟨r, own, linked.flatten, found, rfl, ?_, ?_⟩
  · intro s member
    obtain ⟨made, inside, member⟩ := List.mem_flatten.1 member
    obtain ⟨⟨relationship, data⟩, -, before, after, ran⟩ := forEach_mem related inside
    exact setRelationship_assigned ran s member
  · rcases changed with ⟨none, rfl, -⟩ | ⟨filter, -, -, rfl⟩
    · rw [none] at written
      exact .inl ⟨rfl, written.symm⟩
    · exact .inr (by simp [Sql.Statement.assigned, ← written])

end Compile

namespace Request.Mutation

variable {c : Context} {r : Resource} {m : Request.Mutation} {statements : List Sql.Statement}

/-- The statements of an insert or an update assign no column twice if, and only if, the attributes
and the relationships that are given stand for different columns. -/
theorem nodup_assigned_iff {name : String} {attributes : NameMap Json}
    {relationships : NameMap Request.RelationshipData}
    (row : m.row = some (name, attributes, relationships))
    (found : c.metadata.findResource name = .ok r)
    (accepted : (Compile.mutation c m).result = .ok statements) :
    (∀ s ∈ statements, s.assigned.Nodup) ↔ (r.columnsWritten attributes relationships).Nodup := by
  obtain ⟨q, run⟩ := Compile.result_ok.1 accepted
  have remembers := Progress.remembers_start c.metadata
  cases m with
  | insert =>
    cases row
    obtain ⟨r', found', columns⟩ := Compile.insert_assigned remembers run
    obtain rfl := Except.ok.inj (found.symm.trans found')
    obtain ⟨s, rfl, same⟩ := List.map_eq_singleton_iff.1 columns
    simp [same]
  | update =>
    cases row
    obtain ⟨r', own, linked, found', rfl, single, written⟩ := Compile.update_assigned remembers run
    obtain rfl := Except.ok.inj (found.symm.trans found')
    rw [List.forall_mem_append, and_iff_left single]
    rcases written with ⟨rfl, none⟩ | columns
    · simp [none]
    · obtain ⟨s, rfl, same⟩ := List.map_eq_singleton_iff.1 columns
      simp [same]
  | _ => cases row

end Request.Mutation

/-- The second book gets another title and the first one as its sequel. -/
theorem Request.Mutation.nodup_assigned_iff_books : ∃ statements,
    (Compile.mutation Sample.context (.update "book" (Sample.bookId 2)
      ⟨[("title", .string "Snark")], by decide⟩
      ⟨[("sequel", .one (Sample.bookId 1))], by decide⟩)).result = .ok statements ∧
    ∀ s ∈ statements, s.assigned.Nodup := by
  obtain ⟨statements, accepted⟩ : ∃ statements,
      (Compile.mutation Sample.context (.update "book" (Sample.bookId 2)
        ⟨[("title", .string "Snark")], by decide⟩
        ⟨[("sequel", .one (Sample.bookId 1))], by decide⟩)).result = .ok statements := ⟨_, rfl⟩
  have found : Sample.context.metadata.findResource "book" = .ok ⟨"book", Sample.book⟩ := rfl
  exact ⟨statements, accepted, (nodup_assigned_iff rfl found accepted).2 (by decide)⟩

/-- Books as before, in which the identifier of the sequel is an attribute too. -/
def Sample.numbered : Context where
  metadata := ⟨⟨[("book", { Sample.book with
    attributes := ⟨[("id", ⟨"id", .integer, false, none⟩),
      ("sequelId", ⟨"sequel_id", .integer, true, none⟩),
      ("title", ⟨"title", .text, false, none⟩)], by decide⟩ })], by decide⟩, .empty⟩
  dialect := .postgreSql

/-- The identifier of the sequel is given as an attribute, and the sequel as a relationship. -/
theorem Compile.update_assigns_twice : Sample.numbered.metadata.check = .ok () ∧ ∃ statements,
    (mutation Sample.numbered (.update "book" (Sample.bookId 1)
      ⟨[("sequelId", Sample.bookId 2)], by decide⟩
      ⟨[("sequel", .one (Sample.bookId 2))], by decide⟩)).result = .ok statements ∧
    statements.map (·.assigned) = [["sequel_id", "sequel_id"]] ∧
    ¬ ∀ s ∈ statements, s.assigned.Nodup :=
  ⟨by decide, _, rfl, rfl, by decide⟩

end ResourceSql
