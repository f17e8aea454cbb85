/-
Commands of requests, and the statements that they are written from. Each
statement is complete at some progress (`Compile.CompleteAt`), whose counter was
set back for it; its parameters are numbered on from the first, and there are as
many of them as were counted until then (`Compile.CompleteAt.numbered`).
-/
import ResourceSql.Proofs.MutationRuns
import ResourceSql.Proofs.Numbering

namespace ResourceSql

theorem Compile.result_map {α β : Type} (x : Compile α) (f : α → β) :
    (x >>= fun a => pure (f a)).result = x.result.map f := by
  have step : (x >>= fun a => pure (f a)) .start = EStateM.bind x (fun a => pure (f a)) .start := rfl
  unfold result
  rw [step]
  unfold EStateM.bind
  cases x .start with
  | ok a q => rfl
  | error e q => rfl

/-- What is compiled: the rows of a query, their number, or a mutation. -/
inductive Request where
  | rows (q : Request.Query)
  | count (q : Request.Query)
  | mutation (m : Request.Mutation)

namespace Request

/-- The statements of a request. -/
def compile (c : Context) : Request → Compile (List Sql.Statement)
  | rows q => return [.select (← Compile.rows c q)]
  | count q => return [.select (← Compile.rowCount c q)]
  | mutation m => Compile.mutation c m

/-- The commands for a request, in the order in which they are executed. -/
def commands (c : Context) : Request → Except RequestError (List Sql.Command)
  | rows q => return [← q.command c]
  | count q => return [← q.countCommand c]
  | mutation m => m.commands c

/-- The commands of a request are its statements as the dialect writes them, if these can be
compiled. -/
theorem commands_eq (c : Context) (r : Request) : r.commands c =
    (r.compile c).result.map fun statements => statements.map (·.command c.dialect) := by
  cases r with
  | rows q =>
    rw [compile, Compile.result_map, commands, Query.command]
    cases (Compile.rows c q).result with
    | ok select => rfl
    | error e => rfl
  | count q =>
    rw [compile, Compile.result_map, commands, Query.countCommand]
    cases (Compile.rowCount c q).result with
    | ok select => rfl
    | error e => rfl
  | mutation m => rfl

theorem commands_eq_ok {c : Context} {r : Request} {commands : List Sql.Command}
    (run : r.commands c = .ok commands) :
    ∃ statements q, r.compile c .start = .ok statements q ∧
      commands = statements.map (·.command c.dialect) := by
  rw [commands_eq] at run
  cases made : (r.compile c).result with
  | ok statements =>
    rw [made] at run
    obtain ⟨q, compiled⟩ := Compile.result_ok.1 made
    cases run
    exact ⟨statements, q, compiled, rfl⟩
  | error e =>
    rw [made] at run
    cases run

theorem commands_eq_error {c : Context} {r : Request} {e : RequestError}
    (failed : r.commands c = .error e) : ∃ q, r.compile c .start = .error e q := by
  rw [commands_eq] at failed
  unfold Compile.result at failed
  split at failed
  · cases failed
  · next q ran =>
    cases failed
    exact ⟨q, ran⟩

end Request

section

variable {c : Context} {d : Dialect} {p q : Progress}

/-- The parameters of a statement are numbered on from the first, and there are as many of them as
were bound when it was complete. -/
def Sql.Statement.Numbered (d : Dialect) (s : Statement) (q : Progress) : Prop :=
  ∃ values, parametersOf (s.fragments d) = Parameter.numberedFrom 0 values ∧
    q.parameters = values.length

/-- What is bound in a numbered statement are its parameters, one by one. -/
theorem Sql.Statement.Numbered.parameters {s : Statement} (numbered : s.Numbered d q) :
    (s.command d).parameters = (parametersOf (s.fragments d)).map fun p => (p.name, p.value) := by
  obtain ⟨values, parameters, -⟩ := numbered
  exact bindingsOf_numberedFrom parameters

/-- A statement whose parts were made after its parameters were set back. -/
theorem Issued.numbered_statement {statement : Sql.Statement} {as : List String}
    (issued : Issued (Sql.parametersOf (statement.fragments d)) as { p with parameters := 0 } q) :
    statement.Numbered d q := by
  obtain ⟨values, parameters, count⟩ := issued.numbered
  rw [Nat.zero_add] at count
  exact ⟨values, parameters, count⟩

namespace Compile

open Sql

variable {resource : Resource} {table : Table} {key : ForeignKey} {made : Condition}
  {statement : Statement} {statements : List Statement} {id : Json}

/-! ## Parts of a mutation -/

theorem issued_rowIs (run : rowIs c resource table id p = .ok made q) :
    Issued (parametersOf (made.fragments d)) made.aliases p q := by
  obtain ⟨primaryKey, parameter, -, bound, rfl⟩ := rowIs_run run
  simpa [Condition.equals, parametersOf_comparison, Operand.fragments, Condition.aliases,
    Operand.aliases] using issued_bindId bound

theorem issued_rowIsAnyOf {ids : List Json}
    (run : rowIsAnyOf c resource table ids p = .ok made q) :
    Issued (parametersOf (made.fragments d)) made.aliases p q := by
  obtain ⟨primaryKey, operands, -, bound, rfl⟩ := rowIsAnyOf_run run
  rw [parametersOf_isIn, Condition.aliases, operandAliases_eq_flatMap]
  refine issued_operands (fun id operand p q run => ?_) bound
  obtain ⟨parameter, p₁, bound, run⟩ := bind_eq_ok.1 run
  cases run
  exact ⟨parameter, rfl, issued_bindId bound⟩

theorem issued_assignKey {data : Request.RelationshipData} {assignment : Assignment}
    (run : assignKey c table key data p = .ok assignment q) :
    Issued (parametersOf (assignment.value.fragments d)) assignment.value.aliases p q := by
  obtain ⟨-, ⟨-, -, null, rfl⟩ | ⟨id, target, parameter, -, -, bound, value⟩⟩ := assignKey_run run
  · rw [null]
    exact .refl _
  · rw [value]
    exact issued_bindId bound

theorem issued_assignAttribute {name : String} {value : Json} {assignment : Assignment}
    (run : assignAttribute c resource table name value p = .ok assignment q) :
    Issued (parametersOf (assignment.value.fragments d)) assignment.value.aliases p q := by
  obtain ⟨held, -, -, ⟨-, null, rfl⟩ | ⟨literal, parameter, -, -, bound, value⟩⟩ :=
    assignAttribute_run run
  · rw [null]
    exact .refl _
  · rw [value]
    exact issued_bindValue bound

/-- The names that assignments make. -/
abbrev IssuedAssignments (d : Dialect) (assignments : List Assignment) (p q : Progress) : Prop :=
  Issued (assignments.flatMap fun a => parametersOf (a.value.fragments d))
    (assignments.flatMap (·.value.aliases)) p q

theorem issued_assignAttributes {attributes : NameMap Json} {assignments : List Assignment}
    (run : assignAttributes c resource table attributes p = .ok assignments q) :
    IssuedAssignments d assignments p q :=
  issued_forEach (fun _ _ _ _ => issued_assignAttribute) run

theorem issued_assignNewKeys {relationships : NameMap Request.RelationshipData}
    {assignments : List Assignment}
    (run : assignNewKeys c resource table relationships p = .ok assignments q) :
    IssuedAssignments d assignments p q := by
  refine issued_forEach (fun (name, data) assignment p q run => ?_) run
  obtain ⟨key, p₁, looked, run⟩ := bind_eq_ok.1 run
  refine (issued_foreignKey looked).trans ?_
  split at run
  · simp [bind_eq_ok] at run
  · split at run
    · simp [bind_eq_ok] at run
    · exact issued_assignKey run

theorem issued_assignHeldKeys {given others : List (String × Request.RelationshipData)}
    {assignments : List Assignment}
    (run : assignHeldKeys c resource table given p = .ok (assignments, others) q) :
    IssuedAssignments d assignments p q := by
  induction given generalizing assignments others p with
  | nil =>
    cases run
    exact .refl _
  | cons entry given ih =>
    obtain ⟨name, data⟩ := entry
    simp only [assignHeldKeys, bind_eq_ok] at run
    obtain ⟨key, p₁, looked, run⟩ := run
    refine (issued_foreignKey looked).trans ?_
    split at run
    · simp only [bind_eq_ok] at run
      obtain ⟨assignment, p₂, assigned, ⟨rest, others'⟩, p₃, held, run⟩ := run
      cases run
      exact (issued_assignKey assigned).trans (ih held)
    · simp only [bind_eq_ok] at run
      obtain ⟨⟨rest, others'⟩, p₂, held, run⟩ := run
      cases run
      exact ih held

theorem issued_narrow {start : Progress} {owned : Condition} {selection : Selection}
    (opened : Issued (parametersOf (owned.fragments d)) owned.aliases start p)
    (run : narrow c resource table owned selection p = .ok made q) :
    Issued (parametersOf (made.fragments d)) made.aliases start q := by
  rcases narrow_run run with ⟨-, rfl, rfl⟩ | ⟨ids, among, first, rest⟩
  · exact opened
  · have both := opened.trans (issued_rowIsAnyOf (d := d) first)
    rcases rest with ⟨-, rfl⟩ | ⟨-, -, rfl⟩
    · rw [parametersOf_logical, aliases_logical]
      simpa using both
    · rw [parametersOf_logical, aliases_logical]
      simpa [Condition.fragments, Condition.aliases] using both

/-! ## Complete statements -/

/-- Where a statement is complete, by what made it. Whatever is counted there was bound since the
parameters were set back for the statement. -/
inductive CompleteAt (c : Context) : Statement → Progress → Prop
  | rows {request : Request.Query} {select : Select} {q : Progress}
      (run : rows c request .start = .ok select q) : CompleteAt c (.select select) q
  | rowCount {request : Request.Query} {select : Select} {q : Progress}
      (run : rowCount c request .start = .ok select q) : CompleteAt c (.select select) q
  | insert {name : String} {attributes : NameMap Json}
      {relationships : NameMap Request.RelationshipData} {s : Statement} {p q : Progress}
      (run : insert c name attributes relationships p = .ok [s] q) : CompleteAt c s q
  /-- The row itself is updated. -/
  | update {resource : Resource} {id : Json} {attributes : NameMap Json}
      {given others : List (String × Request.RelationshipData)} {values keys : List Assignment}
      {filter : Condition} {p p₁ p₂ q : Progress}
      (assigned : assignAttributes c resource (resource.table none) attributes
        { p with parameters := 0 } = .ok values p₁)
      (held : assignHeldKeys c resource (resource.table none) given p₁ = .ok (keys, others) p₂)
      (own : rowIs c resource (resource.table none) id p₂ = .ok filter q) :
      CompleteAt c (.update ⟨resource.table none, values ++ keys, filter⟩) q
  /-- A foreign key of the row itself is set. -/
  | link {resource : Resource} {id : Json} {key : ForeignKey} {data : Request.RelationshipData}
      {assignment : Assignment} {filter : Condition} {p p₁ q : Progress}
      (assigned : assignKey c (resource.table none) key data { p with parameters := 0 } =
        .ok assignment p₁)
      (own : rowIs c resource (resource.table none) id p₁ = .ok filter q) :
      CompleteAt c (.update ⟨resource.table none, [assignment], filter⟩) q
  | detach {resource : Resource} {key : ForeignKey} {behavior : DeleteBehavior} {id : Json}
      {selection : Selection} {s : Statement} {p q : Progress}
      (run : detach c resource key behavior id selection p = .ok s q) : CompleteAt c s q
  | attach {resource : Resource} {key : ForeignKey} {id : Json} {ids : List Json} {s : Statement}
      {p q : Progress} (run : attach c resource key id ids p = .ok s q) : CompleteAt c s q
  /-- The row itself is deleted. -/
  | delete {resource : Resource} {id : Json} {filter : Condition} {p q : Progress}
      (own : rowIs c resource (resource.table none) id { p with parameters := 0 } = .ok filter q) :
      CompleteAt c (.delete ⟨resource.table none, filter⟩) q

theorem numbered_update {assignments : List Assignment} {as : List String}
    (issued : Issued ((assignments.flatMap fun a => parametersOf (a.value.fragments d)) ++
      parametersOf (made.fragments d)) as { p with parameters := 0 } q) :
    (Statement.update ⟨table, assignments, made⟩).Numbered d q := by
  have parameters := parametersOf_update d ⟨table, assignments, made⟩
  exact Issued.numbered_statement (parameters ▸ issued)

theorem numbered_delete {as : List String}
    (issued : Issued (parametersOf (made.fragments d)) as { p with parameters := 0 } q) :
    (Statement.delete ⟨table, made⟩).Numbered d q := by
  have parameters := parametersOf_delete d ⟨table, made⟩
  exact Issued.numbered_statement (parameters ▸ issued)

theorem numbered_detach {behavior : DeleteBehavior} {selection : Selection}
    (run : detach c resource key behavior id selection p = .ok statement q) :
    statement.Numbered d q := by
  obtain ⟨target, parameter, p₁, filter, -, bound, narrowed, rest⟩ := detach_run run
  have owned : Issued _ _ _ q := issued_narrow (d := d) (by
    simpa [Condition.equals, parametersOf_comparison, Operand.fragments, Condition.aliases,
      Operand.aliases] using issued_bindId bound) narrowed
  rcases rest with ⟨-, rfl⟩ | ⟨-, -, rfl⟩
  · exact numbered_update (by simpa [Operand.fragments] using owned)
  · exact numbered_delete owned

theorem numbered_attach {ids : List Json} (run : attach c resource key id ids p = .ok statement q) :
    statement.Numbered d q := by
  obtain ⟨target, parameter, p₁, filter, -, bound, among, rfl⟩ := attach_run run
  have both := (issued_bindId bound).trans (issued_rowIsAnyOf (d := d) among)
  exact numbered_update (by simpa [Operand.fragments] using both)

theorem numbered_insert {name : String} {attributes : NameMap Json}
    {relationships : NameMap Request.RelationshipData}
    (run : insert c name attributes relationships p = .ok [statement] q) :
    statement.Numbered d q := by
  obtain ⟨resource, values, p₁, keys, primaryKey, -, assigned, held, -, made⟩ := insert_run run
  obtain rfl := List.singleton_inj.1 made
  have both := (issued_assignAttributes (d := d) assigned).trans (issued_assignNewKeys (d := d) held)
  have parameters := parametersOf_insert d ⟨resource.table none, values ++ keys,
    some ((resource.table none).column primaryKey.column .scalar)⟩
  rw [List.flatMap_append] at parameters
  exact Issued.numbered_statement (parameters ▸ both)

/-- The placeholders of a complete statement are all that were bound for it. -/
theorem CompleteAt.numbered (complete : CompleteAt c statement q) : statement.Numbered d q := by
  cases complete with
  | rows run => exact Issued.numbered_statement (p := .start) (issued_rows run)
  | rowCount run => exact Issued.numbered_statement (p := .start) (issued_rowCount run)
  | insert run => exact numbered_insert run
  | update assigned held own =>
    have assignments := (issued_assignAttributes (d := d) assigned).trans
      (issued_assignHeldKeys (d := d) held)
    have all := assignments.trans (issued_rowIs (d := d) own)
    rw [← List.flatMap_append] at all
    exact numbered_update all
  | link assigned own =>
    have both := (issued_assignKey (d := d) assigned).trans (issued_rowIs (d := d) own)
    exact numbered_update (by simpa using both)
  | detach run => exact numbered_detach run
  | attach run => exact numbered_attach run
  | delete own => exact numbered_delete (issued_rowIs own)

/-! ## Statements of a mutation -/

/-- Each of several statements is complete somewhere. -/
def Complete (c : Context) (statements : List Statement) : Prop :=
  ∀ s ∈ statements, ∃ t, CompleteAt c s t

theorem Complete.nil : Complete c [] := List.forall_mem_nil _

theorem Complete.singleton (complete : CompleteAt c statement q) : Complete c [statement] :=
  List.forall_mem_singleton.2 ⟨q, complete⟩

theorem Complete.append {others : List Statement} (h : Complete c statements)
    (h' : Complete c others) : Complete c (statements ++ others) := List.forall_mem_append.2 ⟨h, h'⟩

theorem Complete.cons (complete : CompleteAt c statement q) (h : Complete c statements) :
    Complete c (statement :: statements) := (Complete.singleton complete).append h

theorem complete_setRelationship {relationship : String} {data : Request.RelationshipData}
    (run : setRelationship c resource id relationship data p = .ok statements q) :
    Complete c statements := by
  obtain ⟨key, p₁, looked, ⟨-, assignment, p₂, filter, assigned, own, rfl⟩ |
    ⟨-, ids, declared, detached, p₂, -, -, first, rest⟩⟩ := setRelationship_run run
  · exact .singleton (.link assigned own)
  · rcases rest with ⟨-, rfl, -⟩ | ⟨attached, -, second, rfl⟩
    · exact .singleton (.detach first)
    · exact .cons (.detach first) (.singleton (.attach second))

theorem complete_addToRelationship {relationship : String} {ids : List Json}
    (run : addToRelationship c resource id relationship ids p = .ok statements q) :
    Complete c statements := by
  obtain ⟨key, p₁, -, -, ⟨-, rfl, -⟩ | ⟨attached, -, first, rfl⟩⟩ := addToRelationship_run run
  · exact .nil
  · exact .singleton (.attach first)

theorem complete_removeFromRelationship {relationship : String} {ids : List Json}
    (run : removeFromRelationship c resource id relationship ids p = .ok statements q) :
    Complete c statements := by
  obtain ⟨key, p₁, -, -, ⟨-, rfl, -⟩ | ⟨declared, detached, -, -, first, rfl⟩⟩ :=
    removeFromRelationship_run run
  · exact .nil
  · exact .singleton (.detach first)

theorem complete_insert {name : String} {attributes : NameMap Json}
    {relationships : NameMap Request.RelationshipData}
    (run : insert c name attributes relationships p = .ok statements q) :
    Complete c statements := by
  obtain ⟨resource, values, p₁, keys, primaryKey, -, -, -, -, rfl⟩ := insert_run run
  exact .singleton (.insert run)

/-- Statements that are made for the elements of a list, one after the other. -/
theorem complete_forEach {α : Type} {step : α → Compile (List Statement)} {given : List α}
    {made : List (List Statement)}
    (each : ∀ a statements p q, step a p = .ok statements q → Complete c statements)
    (run : forEach step given p = .ok made q) : Complete c made.flatten := by
  intro s member
  obtain ⟨statements, own, member⟩ := List.mem_flatten.1 member
  obtain ⟨a, -, before, after, ran⟩ := forEach_mem run own
  exact each a statements before after ran s member

theorem complete_update {name : String} {attributes : NameMap Json}
    {relationships : NameMap Request.RelationshipData}
    (run : update c name id attributes relationships p = .ok statements q) :
    Complete c statements := by
  obtain ⟨resource, values, p₁, keys, others, p₂, own, p₃, linked, -, assigned, held, changed, related,
    rfl⟩ := update_run run
  refine .append ?_ (complete_forEach (fun _ _ _ _ => complete_setRelationship) related)
  rcases changed with ⟨-, rfl, -⟩ | ⟨filter, -, found, rfl⟩
  · exact .nil
  · exact .singleton (.update assigned held found)

theorem complete_clearReferences {given : List (String × Relationship)}
    (run : clearReferences c resource id given p = .ok statements q) : Complete c statements := by
  induction given generalizing statements p with
  | nil =>
    cases run
    exact .nil
  | cons entry given ih =>
    obtain ⟨name, relationship⟩ := entry
    simp only [clearReferences] at run
    split at run
    · simp only [bind_eq_ok] at run
      obtain ⟨key, p₁, looked, detached, p₂, first, rest, p₃, others, run⟩ := run
      cases run
      exact .cons (.detach first) (ih others)
    · exact ih run

theorem complete_delete {name : String} (run : delete c name id p = .ok statements q) :
    Complete c statements := by
  obtain ⟨resource, cleared, p₁, filter, -, references, own, rfl⟩ := delete_run run
  exact (complete_clearReferences references).append (.singleton (.delete own))

theorem complete_mutation {m : Request.Mutation} (run : mutation c m p = .ok statements q) :
    Complete c statements := by
  cases m with
  | insert name attributes relationships => exact complete_insert run
  | update name id attributes relationships => exact complete_update run
  | delete name id => exact complete_delete run
  | setRelationship name id relationship data =>
    obtain ⟨resource, p₁, -, run⟩ := bind_eq_ok.1 run
    exact complete_setRelationship run
  | addToRelationship name id relationship ids =>
    obtain ⟨resource, p₁, -, run⟩ := bind_eq_ok.1 run
    exact complete_addToRelationship run
  | removeFromRelationship name id relationship ids =>
    obtain ⟨resource, p₁, -, run⟩ := bind_eq_ok.1 run
    exact complete_removeFromRelationship run

end Compile

namespace Request

theorem complete_compile {r : Request} {statements : List Sql.Statement}
    (run : r.compile c .start = .ok statements q) : Compile.Complete c statements := by
  cases r with
  | rows request =>
    obtain ⟨select, p₁, first, run⟩ := Compile.bind_eq_ok.1 run
    cases run
    exact .singleton (.rows first)
  | count request =>
    obtain ⟨select, p₁, first, run⟩ := Compile.bind_eq_ok.1 run
    cases run
    exact .singleton (.rowCount first)
  | mutation m => exact Compile.complete_mutation run

theorem numbered_compile {r : Request} {statements : List Sql.Statement}
    (run : r.compile c .start = .ok statements q) : ∀ s ∈ statements, ∃ t, s.Numbered d t := by
  intro s member
  obtain ⟨t, complete⟩ := complete_compile run s member
  exact ⟨t, complete.numbered⟩

end Request

end

/-- The first book becomes the sequel of the second one, and of no other. -/
def Sample.link : Request.Mutation :=
  .setRelationship "book" (.number (.integer 1)) "prequels" (.many [.number (.integer 2)])

end ResourceSql
