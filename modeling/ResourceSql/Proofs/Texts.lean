/-
Texts of commands. Requests that differ in their literal values only have the
same texts, and bind values under the same names (`Request.texts_of_alike`): no
literal is ever written into a text.
-/
import ResourceSql.Proofs.Literals

namespace ResourceSql

def Selection.masked : Selection → Selection
  | all => all
  | only ids => only (ids.map fun _ => .null)
  | allExcept ids => allExcept (ids.map fun _ => .null)

namespace Compile

open Sql (Condition Assignment Statement)

section

variable {c : Context} {d : Dialect} {resource : Resource} {table : Sql.Table} {key : ForeignKey}
  {id id' : Json}

/-! ## Changes -/

theorem agree_rowIs (id id' : Json) :
    Agree (Condition.visible d) (rowIs c resource table id) (rowIs c resource table id') :=
  agree_equalsId resource (fun primaryKey => .ofTable (table.column primaryKey.column .scalar)) id id'

theorem agree_rowIsAnyOf {ids ids' : List Json}
    (alike : ids.map (fun _ => Json.null) = ids'.map fun _ => Json.null) :
    Agree (Condition.visible d) (rowIsAnyOf c resource table ids)
      (rowIsAnyOf c resource table ids') := by
  refine .bind_same fun primaryKey => ?_
  refine .bind (agree_operands (d := d) alike fun id id' => ?_) fun operands operands' same => ?_
  · exact agree_parameter (agree_bindId resource id id')
  · exact .pure (congrArg (Condition.isIn (Sql.Column.ofTable _).visible) same)

theorem agree_assignKey {data data' : Request.RelationshipData} (alike : data.masked = data'.masked) :
    Agree (Assignment.visible d) (assignKey c table key data) (assignKey c table key data') := by
  have assigned (id : Json) : assignKey c table key (.one id) =
      if id.isNull then
        if key.nullable then pure ⟨table.column key.column .foreignKey, .null⟩
        else throw key.requiredError
      else do
        let target ← ofExcept (c.metadata.findResource key.target)
        return ⟨table.column key.column .foreignKey, .parameter (← bindId c target id)⟩ := by
    cases id <;> rfl
  cases data with
  | many ids => exact .throw_left
  | one id =>
    cases data' with
    | many ids => exact .throw_right
    | one id' =>
      rw [assigned, assigned, Json.isNull_of_masked (Request.RelationshipData.one.inj alike)]
      refine .ite (fun _ => .same) fun _ => .bind_same fun target => ?_
      refine .bind (agree_bindId target id id') fun p p' same => .pure ?_
      simp [Assignment.visible, Sql.Operand.visible, same]

theorem agree_assignAttribute {name : String} {value value' : Json}
    (alike : value.masked = value'.masked) :
    Agree (Assignment.visible d) (assignAttribute c resource table name value)
      (assignAttribute c resource table name value') := by
  refine .bind_same fun held => ?_
  rw [Json.isNull_of_masked alike]
  refine .ite (fun _ => .same) fun _ => .bind .ofExcept fun _ _ _ => ?_
  refine .bind (agree_bindValue _ _) fun p p' same => .pure ?_
  simp [Assignment.visible, Sql.Operand.visible, same]

theorem agree_assignAttributes {attributes attributes' : NameMap Json}
    (alike : attributes.mapValues Json.masked = attributes'.mapValues Json.masked) :
    Agree (List.map (Assignment.visible d)) (assignAttributes c resource table attributes)
      (assignAttributes c resource table attributes') := by
  refine .forEach (congrArg NameMap.toList alike) fun (name, value) (name', value') entry => ?_
  obtain ⟨rfl, same⟩ := Prod.mk.inj entry
  exact agree_assignAttribute same

theorem agree_assignNewKeys {relationships relationships' : NameMap Request.RelationshipData}
    (alike : relationships.mapValues Request.RelationshipData.masked =
      relationships'.mapValues Request.RelationshipData.masked) :
    Agree (List.map (Assignment.visible d)) (assignNewKeys c resource table relationships)
      (assignNewKeys c resource table relationships') := by
  refine .forEach (congrArg NameMap.toList alike) fun (name, data) (name', data') entry => ?_
  obtain ⟨rfl, same⟩ := Prod.mk.inj entry
  exact .bind_same fun key => .guard fun _ _ => .guard fun _ _ => agree_assignKey same

theorem agree_assignHeldKeys {given given' : List (String × Request.RelationshipData)}
    (alike : given.map (fun (name, data) => (name, data.masked)) =
      given'.map fun (name, data) => (name, data.masked)) :
    Agree (fun made => (made.1.map (Assignment.visible d),
        made.2.map fun (name, data) => (name, data.masked)))
      (assignHeldKeys c resource table given) (assignHeldKeys c resource table given') := by
  induction given generalizing given' with
  | nil =>
    cases given' with
    | nil => exact .same
    | cons entry given' => cases alike
  | cons entry given ih =>
    cases given' with
    | nil => cases alike
    | cons entry' given' =>
      obtain ⟨name, data⟩ := entry
      obtain ⟨name', data'⟩ := entry'
      obtain ⟨head, tail⟩ := List.cons.inj alike
      obtain ⟨rfl, value⟩ := Prod.mk.inj head
      refine .bind_same fun key => .ite (fun _ => ?_) fun _ => ?_
      · refine .bind (agree_assignKey (d := d) value) fun a a' first => ?_
        refine .bind (ih tail) fun (as, others) (as', others') rest => .pure ?_
        obtain ⟨same, rest⟩ := Prod.mk.inj rest
        simp [first, same, rest]
      · refine .bind (ih tail) fun (as, others) (as', others') rest => .pure ?_
        obtain ⟨same, rest⟩ := Prod.mk.inj rest
        simp [value, same, rest]

theorem agree_narrow {owned owned' : Condition} {selection selection' : Selection}
    (sameOwned : owned.visible d = owned'.visible d) (alike : selection.masked = selection'.masked) :
    Agree (Condition.visible d) (narrow c resource table owned selection)
      (narrow c resource table owned' selection') := by
  cases selection with
  | all =>
    cases selection' with
    | all => exact .pure sameOwned
    | only _ | allExcept _ => cases alike
  | only ids =>
    cases selection' with
    | only ids' =>
      refine .bind (agree_rowIsAnyOf (d := d) (Selection.only.inj alike)) fun made made' same => ?_
      exact .pure (by simp [Condition.visible, sameOwned, same])
    | all | allExcept _ => cases alike
  | allExcept ids =>
    cases selection' with
    | allExcept ids' =>
      have same := Selection.allExcept.inj alike
      -- with no exceptions nothing is narrowed, on both sides
      cases ids with
      | nil =>
        cases ids' with
        | nil => exact .pure sameOwned
        | cons other ids' => cases same
      | cons id ids =>
        cases ids' with
        | nil => cases same
        | cons other ids' =>
          refine .bind (agree_rowIsAnyOf (d := d) same) fun made made' same => ?_
          exact .pure (by simp [Condition.visible, sameOwned, same])
    | all | only _ => cases alike

theorem agree_detach {behavior : DeleteBehavior} {selection selection' : Selection}
    (alike : selection.masked = selection'.masked) :
    Agree (Statement.visible d) (detach c resource key behavior id selection)
      (detach c resource key behavior id' selection') := by
  refine .bind_same fun _ => .bind_same fun target => ?_
  refine .bind (agree_bindId resource id id') fun p p' same => ?_
  have owned (column : Sql.Column) :
      (Condition.equals (.column column) (.parameter p)).visible d =
        (Condition.equals (.column column) (.parameter p')).visible d :=
    Sql.visible_comparison _ rfl (congrArg Sql.Operand.parameter same)
  refine .bind (agree_narrow (d := d) (owned _) alike) fun made made' same => ?_
  refine .ite (fun _ => .pure ?_) fun _ => .ite (fun _ => .pure ?_) fun _ => .same
  · simp [Statement.visible, same]
  · simp [Statement.visible, same]

theorem agree_attach {ids ids' : List Json}
    (alike : ids.map (fun _ => Json.null) = ids'.map fun _ => Json.null) :
    Agree (Statement.visible d) (attach c resource key id ids) (attach c resource key id' ids') := by
  refine .bind_same fun _ => .bind_same fun target => ?_
  refine .bind (agree_bindId resource id id') fun p p' bound => ?_
  refine .bind (agree_rowIsAnyOf (d := d) alike) fun made made' same => .pure ?_
  simp [Statement.visible, Assignment.visible, Sql.Operand.visible, bound, same]

/-- Only how many resources a relationship is to have shows. -/
theorem agree_relatedIds {data data' : Request.RelationshipData} (alike : data.masked = data'.masked) :
    Agree (List.map fun _ => Json.null) (ofExcept (relatedIds key data))
      (ofExcept (relatedIds key data')) := by
  have hidden (data : Request.RelationshipData) :
      (relatedIds key data.masked).map (List.map fun _ => Json.null) =
        (relatedIds key data).map (List.map fun _ => Json.null) := by
    cases data with
    | many ids =>
      cases toOne : key.isToOne <;>
        simp [Request.RelationshipData.masked, relatedIds, toOne, Except.map]
    | one id =>
      cases toOne : key.isToOne <;> cases null : id.isNull <;>
        simp [Request.RelationshipData.masked, relatedIds, toOne, Except.map, Json.isNull_masked, null]
  refine .ofExcept_map ?_
  rw [← hidden, alike, hidden]

theorem isEmpty_of_alike {α β : Type} {f : α → β} {as bs : List α} (alike : as.map f = bs.map f) :
    as.isEmpty = bs.isEmpty := by
  rw [← List.isEmpty_map (f := f), alike, List.isEmpty_map]

theorem agree_setRelationship {relationship : String} {data data' : Request.RelationshipData}
    (alike : data.masked = data'.masked) :
    Agree (List.map (Statement.visible d)) (setRelationship c resource id relationship data)
      (setRelationship c resource id' relationship data') := by
  refine .bind_same fun key => .ite (fun _ => .bind_same fun _ => ?_) fun _ => ?_
  · refine .bind (agree_assignKey (d := d) alike) fun a a' assigned => ?_
    refine .bind (agree_rowIs (d := d) id id') fun made made' same => .pure ?_
    simp [Statement.visible, assigned, same]
  · refine .bind (agree_relatedIds alike) fun ids ids' given => .bind_same fun declared => ?_
    have others : (Selection.allExcept ids).masked = (Selection.allExcept ids').masked :=
      congrArg Selection.allExcept given
    refine .bind (agree_detach (d := d) others) fun detached detached' first => ?_
    rw [isEmpty_of_alike given]
    refine .ite (fun _ => .pure (by simp [first])) fun _ => ?_
    refine .bind (agree_attach (d := d) given) fun attached attached' second => ?_
    exact .pure (by simp [first, second])

/-- Several relationships are replaced one after the other. -/
theorem agree_setRelationships {given given' : List (String × Request.RelationshipData)}
    (alike : given.map (fun (name, data) => (name, data.masked)) =
      given'.map fun (name, data) => (name, data.masked)) :
    Agree (List.map (List.map (Statement.visible d)))
      (forEach (fun (name, data) => setRelationship c resource id name data) given)
      (forEach (fun (name, data) => setRelationship c resource id' name data) given') := by
  refine .forEach alike fun (name, data) (name', data') entry => ?_
  obtain ⟨rfl, same⟩ := Prod.mk.inj entry
  exact agree_setRelationship same

theorem agree_addToRelationship {relationship : String} {ids ids' : List Json}
    (alike : ids.map (fun _ => Json.null) = ids'.map fun _ => Json.null) :
    Agree (List.map (Statement.visible d)) (addToRelationship c resource id relationship ids)
      (addToRelationship c resource id' relationship ids') := by
  refine .bind_same fun key => .guard fun _ _ => ?_
  rw [isEmpty_of_alike alike]
  refine .ite (fun _ => .same) fun _ => ?_
  refine .bind (agree_attach (d := d) alike) fun attached attached' same => .pure ?_
  simp [same]

theorem agree_removeFromRelationship {relationship : String} {ids ids' : List Json}
    (alike : ids.map (fun _ => Json.null) = ids'.map fun _ => Json.null) :
    Agree (List.map (Statement.visible d)) (removeFromRelationship c resource id relationship ids)
      (removeFromRelationship c resource id' relationship ids') := by
  refine .bind_same fun key => .guard fun _ _ => ?_
  rw [isEmpty_of_alike alike]
  refine .ite (fun _ => .same) fun _ => .bind_same fun declared => ?_
  have removed : (Selection.only ids).masked = (Selection.only ids').masked :=
    congrArg Selection.only alike
  refine .bind (agree_detach (d := d) removed) fun detached detached' same => .pure ?_
  simp [same]

/-! ## Mutations -/

section

variable {name : String} {attributes attributes' : NameMap Json}
  {relationships relationships' : NameMap Request.RelationshipData}

theorem agree_insert
    (alike : attributes.mapValues Json.masked = attributes'.mapValues Json.masked)
    (related : relationships.mapValues Request.RelationshipData.masked =
      relationships'.mapValues Request.RelationshipData.masked) :
    Agree (List.map (Statement.visible d)) (insert c name attributes relationships)
      (insert c name attributes' relationships') := by
  refine .bind_same fun resource => .bind_same fun _ => ?_
  refine .bind (agree_assignAttributes (d := d) alike) fun values values' first => ?_
  refine .bind (agree_assignNewKeys (d := d) related) fun keys keys' second => ?_
  refine .bind_same fun primaryKey => .pure ?_
  simp [Statement.visible, first, second]

theorem agree_update
    (alike : attributes.mapValues Json.masked = attributes'.mapValues Json.masked)
    (related : relationships.mapValues Request.RelationshipData.masked =
      relationships'.mapValues Request.RelationshipData.masked) :
    Agree (List.map (Statement.visible d)) (update c name id attributes relationships)
      (update c name id' attributes' relationships') := by
  refine .bind_same fun resource => .bind_same fun _ => ?_
  refine .bind (agree_assignAttributes (d := d) alike) fun values values' first => ?_
  refine .bind (agree_assignHeldKeys (d := d) (congrArg NameMap.toList related)) ?_
  intro (keys, others) (keys', others') held
  obtain ⟨second, left⟩ := Prod.mk.inj held
  have assigned : (values ++ keys).map (Assignment.visible d) =
      (values' ++ keys').map (Assignment.visible d) := by
    rw [List.map_append, List.map_append, first, second]
  -- related rows are changed in the same way whether or not the row itself is updated before
  have linked (own own' : List Statement)
      (same : own.map (Statement.visible d) = own'.map (Statement.visible d)) :
      Agree (List.map (Statement.visible d))
        (do
          let linked ← forEach (fun (name, data) => setRelationship c resource id name data) others
          return own ++ linked.flatten)
        (do
          let linked ← forEach (fun (name, data) => setRelationship c resource id' name data) others'
          return own' ++ linked.flatten) := by
    refine .bind (agree_setRelationships (d := d) left) fun linked linked' more => .pure ?_
    rw [List.map_append, List.map_append, same, List.map_flatten, List.map_flatten, more]
  dsimp only
  rw [isEmpty_of_alike assigned]
  refine .ite (fun _ => linked [] [] rfl) fun _ => ?_
  refine .bind (agree_rowIs (d := d) id id') fun made made' same => ?_
  exact linked _ _ (by simp [Statement.visible, first, second, same])

/-- References are cleared whatever the identifier of the deleted row is. -/
theorem agree_clearReferences (id id' : Json) (given : List (String × Relationship)) :
    Agree (List.map (Statement.visible d)) (clearReferences c resource id given)
      (clearReferences c resource id' given) := by
  induction given with
  | nil => exact .same
  | cons entry given ih =>
    refine .ite (fun _ => .bind_same fun key => ?_) fun _ => ih
    refine .bind (agree_detach (d := d) rfl) fun detached detached' first => ?_
    refine .bind ih fun statements statements' rest => .pure ?_
    rw [List.map_cons, List.map_cons, first, rest]

theorem agree_delete (id id' : Json) :
    Agree (List.map (Statement.visible d)) (delete c name id) (delete c name id') := by
  refine .bind_same fun resource => ?_
  refine .bind (agree_clearReferences (d := d) id id' _) fun cleared cleared' first => ?_
  refine .bind_same fun _ => .bind (agree_rowIs (d := d) id id') fun made made' same => .pure ?_
  simp [Statement.visible, first, same]

theorem agree_mutation {m m' : Request.Mutation} (alike : m.masked = m'.masked) :
    Agree (List.map (Statement.visible d)) (mutation c m) (mutation c m') := by
  cases m with
  | insert name attributes relationships =>
    cases m' with
    | insert name' attributes' relationships' =>
      obtain ⟨rfl, same, related⟩ := Request.Mutation.insert.inj alike
      exact agree_insert same related
    | _ => cases alike
  | update name id attributes relationships =>
    cases m' with
    | update name' id' attributes' relationships' =>
      obtain ⟨rfl, -, same, related⟩ := Request.Mutation.update.inj alike
      exact agree_update same related
    | _ => cases alike
  | delete name id =>
    cases m' with
    | delete name' id' =>
      obtain ⟨rfl, -⟩ := Request.Mutation.delete.inj alike
      exact agree_delete id id'
    | _ => cases alike
  | setRelationship name id relationship data =>
    cases m' with
    | setRelationship name' id' relationship' data' =>
      obtain ⟨rfl, -, rfl, same⟩ := Request.Mutation.setRelationship.inj alike
      exact .bind_same fun resource => agree_setRelationship same
    | _ => cases alike
  | addToRelationship name id relationship ids =>
    cases m' with
    | addToRelationship name' id' relationship' ids' =>
      obtain ⟨rfl, -, rfl, same⟩ := Request.Mutation.addToRelationship.inj alike
      exact .bind_same fun resource => agree_addToRelationship same
    | _ => cases alike
  | removeFromRelationship name id relationship ids =>
    cases m' with
    | removeFromRelationship name' id' relationship' ids' =>
      obtain ⟨rfl, -, rfl, same⟩ := Request.Mutation.removeFromRelationship.inj alike
      exact .bind_same fun resource => agree_removeFromRelationship same
    | _ => cases alike

end

end

end Compile

namespace Request

open Compile (Agree)

variable {c : Context} {d : Dialect} {r r' : Request}

theorem agree_compile (alike : r.masked = r'.masked) :
    Agree (List.map (Sql.Statement.visible d)) (r.compile c) (r'.compile c) := by
  cases r with
  | rows q =>
    cases r' with
    | rows q' =>
      refine .bind (Compile.agree_rows (d := d) (Request.rows.inj alike)) fun s s' same => .pure ?_
      exact congrArg (fun s => [Sql.Statement.select s]) same
    | count _ | mutation _ => cases alike
  | count q =>
    cases r' with
    | count q' =>
      refine .bind (Compile.agree_rowCount (d := d) (Request.count.inj alike)) fun s s' same => ?_
      exact .pure (congrArg (fun s => [Sql.Statement.select s]) same)
    | rows _ | mutation _ => cases alike
  | mutation m =>
    cases r' with
    | mutation m' => exact Compile.agree_mutation (Request.mutation.inj alike)
    | rows _ | count _ => cases alike

/-- The text of a statement is that of its visible part. -/
theorem text_command (s : Sql.Statement) :
    (s.command d).statement = String.ofList (Sql.textOf d ((s.visible d).fragments d)) := by
  rw [Sql.Statement.fragments_visible, Sql.textOf_visibleFragments]
  rfl

/-- The names that a statement binds can be seen in it. -/
theorem names_command {s : Sql.Statement} {t : Progress} (numbered : s.Numbered d t) :
    (s.command d).parameters.map (·.1) =
      (Sql.parametersOf ((s.visible d).fragments d)).map (·.name) := by
  rw [numbered.parameters, Sql.Statement.fragments_visible, Sql.names_visibleFragments, List.map_map]
  rfl

/-- Requests that differ in nothing but their literal values have the same texts, command by command,
and bind the same names in the same order. -/
theorem texts_of_alike {commands commands' : List Sql.Command} (alike : r.masked = r'.masked)
    (run : r.commands c = .ok commands) (run' : r'.commands c = .ok commands') :
    commands.map (·.statement) = commands'.map (·.statement) ∧
      commands.map (·.parameters.map (·.1)) = commands'.map (·.parameters.map (·.1)) := by
  obtain ⟨statements, q, compiled, rfl⟩ := commands_eq_ok run
  obtain ⟨statements', q', compiled', rfl⟩ := commands_eq_ok run'
  obtain ⟨-, same⟩ := (agree_compile (d := c.dialect) alike).of_ok compiled compiled'
  have text (statements : List Sql.Statement) :
      (statements.map (·.command c.dialect)).map (·.statement) =
        (statements.map (·.visible c.dialect)).map fun s =>
          String.ofList (Sql.textOf c.dialect (s.fragments c.dialect)) := by
    rw [List.map_map, List.map_map]
    exact List.map_congr_left fun s _ => text_command s
  have names {r : Request} {statements : List Sql.Statement} {q : Progress}
      (compiled : r.compile c .start = .ok statements q) :
      (statements.map (·.command c.dialect)).map (·.parameters.map (·.1)) =
        (statements.map (·.visible c.dialect)).map fun s =>
          (Sql.parametersOf (s.fragments c.dialect)).map (·.name) := by
    rw [List.map_map, List.map_map]
    refine List.map_congr_left fun s member => ?_
    obtain ⟨t, numbered⟩ := numbered_compile (d := c.dialect) compiled s member
    exact names_command numbered
  exact ⟨by rw [text, text, same], by rw [names compiled, names compiled', same]⟩

end Request

/-- The first book gets another title. -/
def Sample.retitle (title : String) : Request.Mutation :=
  .update "book" (.number (.integer 1)) (NameMap.empty.insert "title" (.string title)) .empty

theorem Request.texts_of_alike_books : ∃ commands commands',
    (Request.mutation (Sample.retitle "Alice")).commands Sample.context = .ok commands ∧
    (Request.mutation (Sample.retitle "'; DELETE FROM books")).commands Sample.context =
      .ok commands' ∧
    commands ≠ commands' ∧ commands.map (·.statement) = commands'.map (·.statement) ∧
    commands.map (·.parameters.map (·.1)) = commands'.map (·.parameters.map (·.1)) := by
  obtain ⟨commands, run⟩ : ∃ commands,
      (Request.mutation (Sample.retitle "Alice")).commands Sample.context = .ok commands := ⟨_, rfl⟩
  obtain ⟨commands', run'⟩ : ∃ commands,
      (Request.mutation (Sample.retitle "'; DELETE FROM books")).commands Sample.context =
        .ok commands := ⟨_, rfl⟩
  have alike : (Request.mutation (Sample.retitle "Alice")).masked =
      (Request.mutation (Sample.retitle "'; DELETE FROM books")).masked := rfl
  refine ⟨commands, commands', run, run', ?_, texts_of_alike alike run run'⟩
  cases run
  cases run'
  decide +kernel

end ResourceSql
