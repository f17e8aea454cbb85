/-
What mutations leave alone. A mutation is about one row, and about the rows that
the relationships it names link to that row or are to link to it (`Touches`). A row
that several statements change in the end is one that the first of them to change
it has found as it was before all of them (`Change.changed_of_andThen`), so what is
confined to these rows statement by statement is confined to them as a whole.
-/
import ResourceSql.Proofs.Writes

namespace ResourceSql

/-! ## Confinement -/

/-- Statements that are executed in order change and remove rows of a kind only. -/
def Sql.Confined (g : Server) (touched : Option String → String → Row → Prop)
    (statements : List Statement) : Prop :=
  ∃ f, MakeAll g statements f ∧ ∀ schema name row, f schema name row ≠ some row →
    touched schema name row

namespace Sql.Confined

variable {g : Server} {touched : Option String → String → Row → Prop}
  {statements others : List Statement}

theorem keep (h : MakeAll g statements .keep) : Confined g touched statements :=
  ⟨.keep, h, fun _ _ _ changed => absurd rfl changed⟩

theorem append (h : Confined g touched statements) (h' : Confined g touched others) :
    Confined g touched (statements ++ others) := by
  obtain ⟨f, makes, within⟩ := h
  obtain ⟨f', makes', within'⟩ := h'
  refine ⟨f.andThen f', makes.append makes', fun schema name row changed => ?_⟩
  rcases Change.changed_of_andThen changed with first | second
  · exact within schema name row first
  · exact within' schema name row second

theorem flatten {all : List (List Statement)} (h : ∀ s ∈ all, Confined g touched s) :
    Confined g touched all.flatten := by
  induction all with
  | nil => exact keep .nil
  | cons s all ih =>
    obtain ⟨first, rest⟩ := List.forall_mem_cons.1 h
    exact first.append (ih rest)

end Sql.Confined

/-! ## Mutations -/

namespace Request

/-- The type of the resource that a mutation is about. -/
def Mutation.resource : Mutation → String
  | insert name _ _ | update name _ _ _ | delete name _ | setRelationship name _ _ _
  | addToRelationship name _ _ _ | removeFromRelationship name _ _ _ => name

/-- The identifier of the resource that a mutation is about, unless it is a new one. -/
def Mutation.id? : Mutation → Option Json
  | insert _ _ _ => none
  | update _ id _ _ | delete _ id | setRelationship _ id _ _ | addToRelationship _ id _ _
  | removeFromRelationship _ id _ _ => some id

/-- The relationships that a mutation names, each with the related identifiers that are given for
it. Deleting a resource names those whose foreign keys are to be null when it is gone. -/
def Mutation.Names (r : Resource) : Mutation → String → List Json → Prop
  | insert _ _ relationships, relationship, ids | update _ _ _ relationships, relationship, ids =>
    ∃ data, (relationship, data) ∈ relationships.toList ∧ ids = data.ids
  | delete _ _, relationship, ids => ids = [] ∧
    ∃ declared, (relationship, declared) ∈ r.type.relationships.toList ∧
      declared.deleteBehavior = .setNull ∧ declared.foreignKey.atLeftSide = false
  | setRelationship _ _ named data, relationship, ids => relationship = named ∧ ids = data.ids
  | addToRelationship _ _ named given, relationship, ids
  | removeFromRelationship _ _ named given, relationship, ids => relationship = named ∧ ids = given

end Request

/-- The rows that may be touched when the resource of an identifier is changed, and relationships
with related identifiers: the row of the resource itself, and of the tables of related resources
the rows whose foreign key is the identifier, and those of the related identifiers. Where the row
of the resource itself holds the foreign key, no others are touched. -/
inductive Touches (g : Engine) (m : Metadata) (r : Resource) (id : Json)
    (names : String → List Json → Prop) : Option String → String → Row → Prop where
  | own {owner : Value} {row : Row} (identifies : m.Identifies r id owner)
    (same : g.compare .equals (Graph.keyValue r row) owner = .true) :
    Touches g m r id names (r.table none).schema (r.table none).name row
  | owned {relationship : String} {ids : List Json} {key : ForeignKey} {target : Resource}
    {owner : Value} {row : Row} (named : names relationship ids)
    (resolved : ForeignKey.resolve m r relationship = .ok key)
    (apart : (key.isToOne && key.atLeftSide) = false) (found : m.findResource key.target = .ok target)
    (identifies : m.Identifies r id owner)
    (same : g.compare .equals (row key.column) owner = .true) :
    Touches g m r id names (target.table none).schema (target.table none).name row
  | related {relationship : String} {ids : List Json} {key : ForeignKey} {target : Resource}
    {given : Json} {value : Value} {row : Row} (named : names relationship ids)
    (resolved : ForeignKey.resolve m r relationship = .ok key)
    (apart : (key.isToOne && key.atLeftSide) = false) (found : m.findResource key.target = .ok target)
    (member : given ∈ ids) (identifies : m.Identifies target given value)
    (same : g.compare .equals (Graph.keyValue target row) value = .true) :
    Touches g m r id names (target.table none).schema (target.table none).name row

namespace Compile

variable {c : Context} {p q : Progress} {r : Resource} {key : ForeignKey} {id : Json}
  {relationship : String} {ids : List Json} {statement : Sql.Statement}
  {statements : List Sql.Statement} {names : String → List Json → Prop}

theorem detach_confined {behavior : DeleteBehavior} {selection : Selection}
    (named : names relationship ids)
    (resolved : ForeignKey.resolve c.metadata r relationship = .ok key)
    (apart : (key.isToOne && key.atLeftSide) = false)
    (run : detach c r key behavior id selection p = .ok statement q) (g : Server) :
    Sql.Confined g (Touches g.toEngine c.metadata r id names) [statement] := by
  obtain ⟨target, owner, values, found, identifies, -, -, -, makes⟩ := detach_makes run
  refine ⟨_, makes g, fun schema name row changed => ?_⟩
  obtain ⟨rfl, rfl, owned⟩ := Change.changed_of_inTable changed
  exact .owned named resolved apart found identifies (Truth.and_eq_true_iff.1 owned).1

theorem attach_confined (named : names relationship ids)
    (resolved : ForeignKey.resolve c.metadata r relationship = .ok key)
    (apart : (key.isToOne && key.atLeftSide) = false)
    (run : attach c r key id ids p = .ok statement q) (g : Server) :
    Sql.Confined g (Touches g.toEngine c.metadata r id names) [statement] := by
  obtain ⟨target, owner, values, found, -, identify, -, makes⟩ := attach_makes run
  refine ⟨_, makes g, fun schema name row changed => ?_⟩
  obtain ⟨rfl, rfl, among⟩ := Change.changed_of_inTable changed
  obtain ⟨value, member, same⟩ := Engine.among_eq_true_iff.1 among
  obtain ⟨given, given_mem, identifies⟩ := forall₂_exists_left identify member
  exact .related named resolved apart found given_mem identifies same

theorem setRelationship_confined {data : Request.RelationshipData} (named : names relationship data.ids)
    (remembers : p.Remembers c.metadata) (found : c.metadata.findResource r.name = .ok r)
    (run : setRelationship c r id relationship data p = .ok statements q) (g : Server) :
    Sql.Confined g (Touches g.toEngine c.metadata r id names) statements := by
  obtain ⟨-, key, resolved, ⟨-, owner, value, identifies, makes⟩ | ⟨right, target, ids, -, owner, values,
    known, related, -, -, identifies, identify, makes⟩⟩ := setRelationship_makes remembers found run
  · refine ⟨_, makes g, fun schema name row changed => ?_⟩
    obtain ⟨rfl, rfl, own⟩ := Change.changed_of_inTable changed
    exact .own identifies own
  · have apart : (key.isToOne && key.atLeftSide) = false := by rw [right, Bool.and_false]
    refine ⟨_, makes g, fun schema name row changed => ?_⟩
    rcases Change.changed_of_andThen changed with first | second
    · obtain ⟨rfl, rfl, owned⟩ := Change.changed_of_inTable first
      exact .owned named resolved apart known identifies (Truth.and_eq_true_iff.1 owned).1
    · obtain ⟨rfl, rfl, among⟩ := Change.changed_of_inTable second
      obtain ⟨value, member, same⟩ := Engine.among_eq_true_iff.1 among
      obtain ⟨given, given_mem, identifies⟩ := forall₂_exists_left identify member
      exact .related named resolved apart known ((relatedIds_eq_ok related).1 given_mem) identifies same

theorem addToRelationship_confined (named : names relationship ids)
    (remembers : p.Remembers c.metadata) (found : c.metadata.findResource r.name = .ok r)
    (run : addToRelationship c r id relationship ids p = .ok statements q) (g : Server) :
    Sql.Confined g (Touches g.toEngine c.metadata r id names) statements := by
  obtain ⟨key, p₁, looked, toMany, rest⟩ := addToRelationship_run run
  have apart : (key.isToOne && key.atLeftSide) = false := by rw [toMany, Bool.false_and]
  rcases rest with ⟨-, rfl, -⟩ | ⟨attached, -, first, rfl⟩
  · exact .keep .nil
  · exact attach_confined named (foreignKey_found remembers found looked).1 apart first g

theorem removeFromRelationship_confined (named : names relationship ids)
    (remembers : p.Remembers c.metadata) (found : c.metadata.findResource r.name = .ok r)
    (run : removeFromRelationship c r id relationship ids p = .ok statements q) (g : Server) :
    Sql.Confined g (Touches g.toEngine c.metadata r id names) statements := by
  obtain ⟨key, p₁, looked, toMany, rest⟩ := removeFromRelationship_run run
  have apart : (key.isToOne && key.atLeftSide) = false := by rw [toMany, Bool.false_and]
  rcases rest with ⟨-, rfl, -⟩ | ⟨declared, detached, -, -, first, rfl⟩
  · exact .keep .nil
  · exact detach_confined named (foreignKey_found remembers found looked).1 apart first g

theorem update_confined {name : String} {attributes : NameMap Json}
    {relationships : NameMap Request.RelationshipData} (remembers : p.Remembers c.metadata)
    (run : update c name id attributes relationships p = .ok statements q) :
    ∃ r, c.metadata.findResource name = .ok r ∧ ∀ g : Server,
      Sql.Confined g (Touches g.toEngine c.metadata r id fun relationship ids =>
        ∃ data, (relationship, data) ∈ relationships.toList ∧ ids = data.ids) statements := by
  obtain ⟨r, own, others, linked, p₁, found, remembers, given, -, related, rfl, changed⟩ :=
    update_makes_own remembers run
  refine ⟨r, found, fun g => ?_⟩
  have itself := Metadata.findResource_self found
  refine .append ?_ (.flatten fun made member => ?_)
  · rcases changed with kept | ⟨owner, values, identifies, -, makes⟩
    · exact .keep (kept g)
    · refine ⟨_, makes g, fun schema name row changed => ?_⟩
      obtain ⟨rfl, rfl, own⟩ := Change.changed_of_inTable changed
      exact .own identifies own
  · obtain ⟨-, all⟩ := forEach_run (fun s => s.Remembers c.metadata) (fun _ made =>
      Sql.Confined g (Touches g.toEngine c.metadata r id fun relationship ids =>
        ∃ data, (relationship, data) ∈ relationships.toList ∧ ids = data.ids) made)
      (fun entry member made s s' remembers run =>
        ⟨(setRelationship_makes remembers itself run).1,
          setRelationship_confined ⟨entry.2, given.subset member, rfl⟩ remembers itself run g⟩)
      remembers related
    obtain ⟨_, -, confined⟩ := forall₂_exists_left all member
    exact confined

theorem clearReferences_confined {given : List (String × Relationship)}
    (declared : ∀ entry ∈ given, entry ∈ r.type.relationships.toList)
    (named : ∀ relationship d, (relationship, d) ∈ r.type.relationships.toList →
      d.deleteBehavior = .setNull → d.foreignKey.atLeftSide = false → names relationship [])
    (remembers : p.Remembers c.metadata) (found : c.metadata.findResource r.name = .ok r)
    (run : clearReferences c r id given p = .ok statements q) (g : Server) :
    Sql.Confined g (Touches g.toEngine c.metadata r id names) statements := by
  induction given generalizing statements p with
  | nil =>
    cases run
    exact .keep .nil
  | cons entry given ih =>
    obtain ⟨relationship, d⟩ := entry
    obtain ⟨member, others⟩ := List.forall_mem_cons.1 declared
    simp only [clearReferences] at run
    split at run
    · next clears =>
      simp only [bind_eq_ok] at run
      obtain ⟨key, p₁, looked, detached, p₂, first, rest, p₃, later, run⟩ := run
      cases run
      obtain ⟨resolved, remembers⟩ := foreignKey_found remembers found looked
      have right : d.foreignKey.atLeftSide = false := by simpa using clears.2
      have apart : (key.isToOne && key.atLeftSide) = false := by
        obtain ⟨d', target, declared, -, rfl⟩ := ForeignKey.resolve_eq_ok.1 resolved
        obtain rfl := Option.some.inj ((NameMap.get?_of_mem member).symm.trans declared)
        simp [right]
      obtain ⟨-, -, -, -, -, -, -, memory, -⟩ := detach_makes first
      have one := detach_confined (named relationship d member clears.1 right) resolved apart first g
      exact one.append (ih others (remembers.of_memory memory) later)
    · exact ih others remembers run

theorem delete_confined {name : String} (remembers : p.Remembers c.metadata)
    (run : delete c name id p = .ok statements q) :
    ∃ r, c.metadata.findResource name = .ok r ∧ ∀ g : Server,
      Sql.Confined g (Touches g.toEngine c.metadata r id
        ((Request.Mutation.delete name id).Names r)) statements := by
  obtain ⟨r, cleared, p₁, filter, found, references, own, rfl⟩ := delete_run run
  refine ⟨r, found, fun g => .append ?_ ?_⟩
  · exact clearReferences_confined (fun _ member => member)
      (fun relationship d member clears right => ⟨rfl, d, member, clears, right⟩) remembers
      (Metadata.findResource_self found) references g
  · obtain ⟨owner, identifies, -, makes⟩ := delete_makes own
    refine ⟨_, makes g, fun schema name row changed => ?_⟩
    obtain ⟨rfl, rfl, same⟩ := Change.changed_of_inTable changed
    exact .own identifies same

end Compile

/-- A mutation touches nothing but what it is about. A new resource is one more row of its table,
and all other rows stay as they are. -/
theorem Request.Mutation.touches_only {c : Context} {m : Request.Mutation}
    {statements : List Sql.Statement} (run : (Compile.mutation c m).result = .ok statements) :
    ∃ r, c.metadata.findResource m.resource = .ok r ∧
      match m.id? with
      | none => ∀ (g : Server) db, ∃ row, Sql.executeAll g statements db = db.add (r.table none) row
      | some id => ∀ g : Server,
        Sql.Confined g (Touches g.toEngine c.metadata r id (m.Names r)) statements := by
  obtain ⟨q, run⟩ := Compile.result_ok.1 run
  have start := Progress.remembers_start c.metadata
  cases m with
  | insert name attributes relationships =>
    obtain ⟨r, values, p₁, keys, primaryKey, found, -, -, -, rfl⟩ := Compile.insert_run run
    exact ⟨r, found, fun g db => ⟨_, rfl⟩⟩
  | update name id attributes relationships => exact Compile.update_confined start run
  | delete name id => exact Compile.delete_confined start run
  | setRelationship name id relationship data =>
    obtain ⟨r, p₁, looked, run⟩ := Compile.bind_eq_ok.1 run
    obtain ⟨found, rfl⟩ := Compile.ofExcept_eq_ok.1 looked
    exact ⟨r, found, Compile.setRelationship_confined ⟨rfl, rfl⟩ start
      (Metadata.findResource_self found) run⟩
  | addToRelationship name id relationship ids =>
    obtain ⟨r, p₁, looked, run⟩ := Compile.bind_eq_ok.1 run
    obtain ⟨found, rfl⟩ := Compile.ofExcept_eq_ok.1 looked
    exact ⟨r, found, Compile.addToRelationship_confined ⟨rfl, rfl⟩ start
      (Metadata.findResource_self found) run⟩
  | removeFromRelationship name id relationship ids =>
    obtain ⟨r, p₁, looked, run⟩ := Compile.bind_eq_ok.1 run
    obtain ⟨found, rfl⟩ := Compile.ofExcept_eq_ok.1 looked
    exact ⟨r, found, Compile.removeFromRelationship_confined ⟨rfl, rfl⟩ start
      (Metadata.findResource_self found) run⟩

/-- Deleting the second book touches that book and its prequels only. -/
theorem Request.Mutation.touches_only_books : ∃ statements f,
    (Compile.mutation Sample.context (.delete "book" (Sample.bookId 2))).result = .ok statements ∧
    Sql.MakeAll Sample.server statements f ∧ ∀ schema name (row : Row),
      row "id" ≠ .int32 2 → row "sequel_id" ≠ .int32 2 → f schema name row = some row := by
  obtain ⟨statements, run⟩ : ∃ statements, (Compile.mutation Sample.context
      (.delete "book" (Sample.bookId 2))).result = .ok statements := ⟨_, rfl⟩
  obtain ⟨r, found, confined⟩ := touches_only run
  obtain rfl := Sample.findResource_eq found
  obtain ⟨f, makes, within⟩ := confined Sample.server
  refine ⟨statements, f, run, makes, fun schema name row other unlinked => ?_⟩
  by_contra changed
  cases within schema name row changed with
  | own identifies same =>
    obtain rfl := identifies.unique Sample.identifies_book
    exact other (Sample.eq_of_compare same)
  | owned named resolved apart found identifies same =>
    obtain rfl := identifies.unique Sample.identifies_book
    obtain ⟨-, declared, member, -, right⟩ := named
    simp only [Sample.book, NameMap.toList, List.mem_cons, List.not_mem_nil, or_false,
      Prod.mk.injEq] at member
    rcases member with ⟨rfl, rfl⟩ | ⟨-, rfl⟩
    · cases resolved
      exact unlinked (Sample.eq_of_compare same)
    · cases right
  | related named resolved apart found member identifies same =>
    rw [named.1] at member
    cases member

end ResourceSql
