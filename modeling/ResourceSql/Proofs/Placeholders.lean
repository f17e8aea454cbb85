/-
The placeholders of commands. A command is read like any text, by a reader who
knows how identifiers are quoted and what a placeholder looks like
(`Sql.placeholdersIn`). What is found is `@p1`, `@p2` and so on, from left to
right and each of them once: one for each parameter in the tree of the statement,
and one for each value that was bound while the statement was made. The command
binds just these names, each to the value of its parameter
(`Request.bindings_of_commands`). To that end no name that is written without
quotes may look like an identifier or a placeholder; those of a query are aliases
that were given out, and those of a mutation are none.
-/
import ResourceSql.Proofs.Commands
import ResourceSql.Proofs.Quoting
import ResourceSql.Proofs.Reads
import ResourceSql.Proofs.Uses

namespace ResourceSql

namespace Sql

/-! ## Names that are given out -/

theorem isNumbered_ofNat (mark : List Char) (n : Nat) :
    isNumbered (String.ofList mark) (String.ofList (mark ++ Digits.ofNat n)) = true := by
  rw [isNumbered, String.toList_ofList, String.toList_ofList, skip_append]
  simp only [Bool.and_eq_true, Bool.not_eq_true', List.isEmpty_eq_false_iff, List.all_eq_true]
  exact ⟨Digits.ofNat_ne_nil n, fun _ member => Digits.isDigit_of_mem_ofNat member⟩

theorem isAlias_tableAlias (n : Nat) : isAlias (tableAlias n) = true := isNumbered_ofNat ['t'] n

theorem Parameter.isRegular_of_mem_numberedFrom {n : Nat} {values : List Value} {p : Parameter}
    (member : p ∈ numberedFrom n values) : p.isRegular = true := by
  have named : p.name ∈ (numberedFrom n values).map (·.name) := List.mem_map_of_mem member
  rw [names_numberedFrom] at named
  obtain ⟨k, -, same⟩ := List.mem_map.1 named
  rw [isRegular, ← same]
  exact isNumbered_ofNat ['@', 'p'] k

end Sql

theorem Issued.isAlias {ps : List Sql.Parameter} {as : List String} {q : Progress}
    (issued : Issued ps as .start q) : ∀ a ∈ as, Sql.isAlias a = true := by
  have start : Progress.Distinct .start [] :=
    ⟨List.nodup_nil, by simp [Progress.aliases, Progress.start]⟩
  intro a member
  have given : a ∈ q.aliases ++ ([] ++ as) := List.mem_append_right _ member
  obtain ⟨n, -, rfl⟩ := (issued.distinct [] start).given a given
  exact Sql.isAlias_tableAlias n

/-! ## Names without quotes -/

namespace Compile

open Sql

section

variable {c : Context} {p q : Progress} {resource : Resource} {key : ForeignKey} {id : Json}
  {made : Condition} {assignment : Assignment} {statement : Statement}

/-- The aliases of a query are given out, and it mentions no others. -/
theorem isAlias_of_query {request : Request.Query} {select : Select}
    (run : rows c request .start = .ok select q ∨ rowCount c request .start = .ok select q) :
    ∀ a ∈ (Statement.select select).unquoted, isAlias a = true := by
  have declared : ∀ a ∈ select.aliases, isAlias a = true := by
    rcases run with run | run
    · exact (issued_rows (d := c.dialect) run).isAlias
    · exact (issued_rowCount (d := c.dialect) run).isAlias
  obtain ⟨-, sound, -⟩ := scoped_of_query
    (run.imp (fun run => result_ok.2 ⟨q, run⟩) fun run => result_ok.2 ⟨q, run⟩)
  have mentioned := Select.mentions_subset select sound
  rw [List.append_nil] at mentioned
  exact List.forall_mem_append.2 ⟨declared, fun a member => declared a (mentioned member)⟩

/-- The conditions of mutations address the columns of the only table without an alias. -/
def Unaliased (made : Condition) : Prop := made.aliases ++ made.mentions = []

theorem unaliased_rowIs (run : rowIs c resource (resource.table none) id p = .ok made q) :
    Unaliased made := by
  obtain ⟨primaryKey, parameter, -, -, rfl⟩ := rowIs_run run
  rfl

theorem unaliased_rowIsAnyOf {ids : List Json}
    (run : rowIsAnyOf c resource (resource.table none) ids p = .ok made q) : Unaliased made := by
  obtain ⟨primaryKey, operands, -, bound, rfl⟩ := rowIsAnyOf_run run
  have each : ∀ operand ∈ operands, operand.aliases = [] ∧ operand.mentions = [] := by
    intro operand member
    obtain ⟨id, -, before, after, run⟩ := forEach_mem bound member
    obtain ⟨parameter, p₁, -, run⟩ := bind_eq_ok.1 run
    cases run
    exact ⟨rfl, rfl⟩
  have aliases : operandAliases operands = [] := by
    rw [operandAliases_eq_flatMap]
    exact List.flatMap_eq_nil_iff.2 fun operand member => (each operand member).1
  have mentions : operandMentions operands = [] := by
    rw [operandMentions_eq_flatMap]
    exact List.flatMap_eq_nil_iff.2 fun operand member => (each operand member).2
  rw [Unaliased, Condition.aliases, Condition.mentions, aliases, mentions]
  rfl

theorem unaliased_narrow {owned : Condition} {selection : Selection}
    (run : narrow c resource (resource.table none) owned selection p = .ok made q)
    (first : Unaliased owned) : Unaliased made := by
  rcases narrow_run run with ⟨-, rfl, -⟩ | ⟨ids, among, listed, rest⟩
  · exact first
  · have second := unaliased_rowIsAnyOf listed
    simp only [Unaliased, List.append_eq_nil_iff] at first second
    rcases rest with ⟨-, rfl⟩ | ⟨-, -, rfl⟩ <;>
      simp [Unaliased, Condition.aliases, Condition.mentions, conditionAliases, conditionMentions,
        first, second]

theorem unquoted_assignKey {data : Request.RelationshipData}
    (run : assignKey c (resource.table none) key data p = .ok assignment q) :
    assignment.unquoted = [] := by
  obtain ⟨column, held⟩ := assignKey_run run
  rw [Assignment.unquoted, column]
  obtain ⟨-, -, null, -⟩ | ⟨related, target, parameter, -, -, -, value⟩ := held
  · rw [null]
    rfl
  · rw [value]
    rfl

theorem unquoted_assignAttribute {name : String} {value : Json}
    (run : assignAttribute c resource (resource.table none) name value p = .ok assignment q) :
    assignment.unquoted = [] := by
  obtain ⟨found, -, column, held⟩ := assignAttribute_run run
  rw [Assignment.unquoted, column]
  obtain ⟨-, null, -⟩ | ⟨literal, parameter, -, -, -, value⟩ := held
  · rw [null]
    rfl
  · rw [value]
    rfl

theorem unquoted_assignAttributes {attributes : NameMap Json} {assignments : List Assignment}
    (run : assignAttributes c resource (resource.table none) attributes p = .ok assignments q) :
    assignments.flatMap Assignment.unquoted = [] := by
  refine List.flatMap_eq_nil_iff.2 fun assignment member => ?_
  obtain ⟨entry, -, before, after, run⟩ := forEach_mem run member
  exact unquoted_assignAttribute run

theorem unquoted_assignNewKeys {relationships : NameMap Request.RelationshipData}
    {assignments : List Assignment}
    (run : assignNewKeys c resource (resource.table none) relationships p = .ok assignments q) :
    assignments.flatMap Assignment.unquoted = [] := by
  refine List.flatMap_eq_nil_iff.2 fun assignment member => ?_
  obtain ⟨entry, -, before, after, run⟩ := forEach_mem run member
  obtain ⟨key, p₁, looked, run⟩ := bind_eq_ok.1 run
  split at run
  · simp [bind_eq_ok] at run
  · split at run
    · simp [bind_eq_ok] at run
    · exact unquoted_assignKey run

theorem unquoted_assignHeldKeys {given others : List (String × Request.RelationshipData)}
    {assignments : List Assignment}
    (run : assignHeldKeys c resource (resource.table none) given p = .ok (assignments, others) q) :
    assignments.flatMap Assignment.unquoted = [] := by
  induction given generalizing assignments others p with
  | nil =>
    cases run
    rfl
  | cons entry given ih =>
    obtain ⟨name, data⟩ := entry
    simp only [assignHeldKeys, bind_eq_ok] at run
    obtain ⟨key, p₁, looked, run⟩ := run
    split at run
    · simp only [bind_eq_ok] at run
      obtain ⟨assignment, p₂, assigned, ⟨rest, others'⟩, p₃, held, run⟩ := run
      cases run
      rw [List.flatMap_cons, unquoted_assignKey assigned, ih held]
      rfl
    · simp only [bind_eq_ok] at run
      obtain ⟨⟨rest, others'⟩, p₂, held, run⟩ := run
      cases run
      exact ih held

theorem unquoted_update {assignments : List Assignment}
    (assigned : assignments.flatMap Assignment.unquoted = []) (filtered : Unaliased made) :
    (Statement.update ⟨resource.table none, assignments, made⟩).unquoted = [] := by
  rw [Statement.unquoted, assigned, filtered]
  rfl

theorem unquoted_detach {behavior : DeleteBehavior} {selection : Selection}
    (run : detach c resource key behavior id selection p = .ok statement q) :
    statement.unquoted = [] := by
  obtain ⟨target, parameter, p₁, filter, -, -, narrowed, rest⟩ := detach_run run
  have filtered : Unaliased filter := unaliased_narrow narrowed rfl
  rcases rest with ⟨-, rfl⟩ | ⟨-, -, rfl⟩
  · exact unquoted_update rfl filtered
  · exact filtered

theorem unquoted_attach {ids : List Json} (run : attach c resource key id ids p = .ok statement q) :
    statement.unquoted = [] := by
  obtain ⟨target, parameter, p₁, filter, -, -, among, rfl⟩ := attach_run run
  exact unquoted_update rfl (unaliased_rowIsAnyOf among)

theorem unquoted_insert {name : String} {attributes : NameMap Json}
    {relationships : NameMap Request.RelationshipData}
    (run : insert c name attributes relationships p = .ok [statement] q) :
    statement.unquoted = [] := by
  obtain ⟨resource, values, p₁, keys, primaryKey, -, assigned, held, -, made⟩ := insert_run run
  obtain rfl := List.singleton_inj.1 made
  rw [Statement.unquoted, List.flatMap_append, unquoted_assignAttributes assigned,
    unquoted_assignNewKeys held]
  rfl

/-- Only aliases are written without quotes. -/
theorem CompleteAt.isAlias (complete : CompleteAt c statement q) :
    ∀ a ∈ statement.unquoted, Sql.isAlias a = true := by
  have of_nil {s : Statement} (empty : s.unquoted = []) : ∀ a ∈ s.unquoted, Sql.isAlias a = true := by
    simp [empty]
  cases complete with
  | rows run => exact isAlias_of_query (.inl run)
  | rowCount run => exact isAlias_of_query (.inr run)
  | insert run => exact of_nil (unquoted_insert run)
  | update assigned held own =>
    have both := List.append_eq_nil_iff.2
      ⟨unquoted_assignAttributes assigned, unquoted_assignHeldKeys held⟩
    rw [← List.flatMap_append] at both
    exact of_nil (unquoted_update both (unaliased_rowIs own))
  | link assigned own =>
    have alone := unquoted_assignKey assigned
    exact of_nil (unquoted_update (by simpa using alone) (unaliased_rowIs own))
  | detach run => exact of_nil (unquoted_detach run)
  | attach run => exact of_nil (unquoted_attach run)
  | delete own => exact of_nil (unaliased_rowIs own)

end

end Compile

/-! ## Commands -/

/-- A statement that binds values one after another, as the dialect writes it. -/
structure Sql.Statement.Binds (d : Dialect) (s : Statement) (values : List Value) : Prop where
  /-- In the tree there is a parameter for each value, in their order. -/
  tree : s.uses.map (·.parameter) = Parameter.numberedFrom 0 values
  /-- In the text there are as many placeholders, and no others. -/
  text : placeholdersIn d (s.command d).statement.toList =
    some ((List.range' 1 values.length).map placeholder)
  /-- A placeholder stands where its parameter is written, nothing behind it goes on with its name,
  and its name is bound to the value of the parameter. -/
  written : ∀ before p after, s.fragments d = before ++ .parameter p :: after →
    (s.command d).statement.toList = textOf d before ++ p.name.toList ++ textOf d after ∧
      (∀ next ∈ (textOf d after).head?, isNameChar next = false) ∧
      (p.name, p.value) ∈ (s.command d).parameters
  /-- Each name is bound once. -/
  bound : (s.command d).parameters = ((List.range' 1 values.length).map placeholder).zip values

theorem Sql.Parameter.bindings_numberedFrom (n : Nat) (values : List Value) :
    (numberedFrom n values).map (fun p => (p.name, p.value)) =
      ((List.range' (n + 1) values.length).map placeholder).zip values := by
  have names := names_numberedFrom n values
  have held := values_numberedFrom n values
  rw [← names]
  nth_rewrite 3 [← held]
  rw [List.zip_map']

/-- A complete statement binds all that was counted for it. -/
theorem Compile.CompleteAt.binds {c : Context} {s : Sql.Statement} {t : Progress}
    (complete : CompleteAt c s t) :
    ∃ values, t.parameters = values.length ∧ s.Binds c.dialect values := by
  have numbered : s.Numbered c.dialect t := complete.numbered
  have bindings := numbered.parameters
  obtain ⟨values, parameters, count⟩ := numbered
  have regular : ∀ p ∈ Sql.parametersOf (s.fragments c.dialect), p.isRegular = true := by
    intro p member
    rw [parameters] at member
    exact Sql.Parameter.isRegular_of_mem_numberedFrom member
  refine ⟨values, count, ⟨(s.parameters_eq c.dialect).symm.trans parameters, ?_, ?_, ?_⟩⟩
  · rw [s.placeholdersIn_text c.dialect complete.isAlias regular, parameters,
      Sql.Parameter.names_numberedFrom]
  · intro before p after written
    have follows := (written ▸ s.laid c.dialect).behind.behind_parameter.parting c.dialect
    have text : (s.command c.dialect).statement.toList =
        Sql.textOf c.dialect (s.fragments c.dialect) := String.toList_ofList ..
    refine ⟨?_, fun next first => Sql.not_isNameChar_of_parting (follows next first), ?_⟩
    · rw [text, written, Sql.textOf_append, Sql.textOf_parameter, List.append_assoc]
    · rw [bindings, written]
      simp
  · rw [bindings, parameters, Sql.Parameter.bindings_numberedFrom]

namespace Request

/-- In the text of every command the placeholders are `@p1`, `@p2` and so on, from left to right and
each of them once. There is one for each parameter of the statement, and one for each value that was
counted when the statement was complete; and just these names are bound, each to the value of its
parameter. -/
theorem bindings_of_commands {c : Context} {r : Request} {commands : List Sql.Command}
    (run : r.commands c = .ok commands) :
    ∃ statements q, r.compile c .start = .ok statements q ∧
      commands = statements.map (·.command c.dialect) ∧
      ∀ s ∈ statements, ∃ t values, Compile.CompleteAt c s t ∧ t.parameters = values.length ∧
        s.Binds c.dialect values := by
  obtain ⟨statements, q, compiled, rfl⟩ := commands_eq_ok run
  refine ⟨statements, q, compiled, rfl, fun s member => ?_⟩
  obtain ⟨t, complete⟩ := complete_compile compiled s member
  obtain ⟨values, count, binds⟩ := complete.binds
  exact ⟨t, values, complete, count, binds⟩

theorem bindings_of_commands_books : ∃ commands,
    (Request.mutation Sample.link).commands Sample.context = .ok commands ∧ commands.length = 2 ∧
    ∀ command ∈ commands,
      Sql.placeholdersIn Sample.context.dialect command.statement.toList =
        some [Sql.placeholder 1, Sql.placeholder 2] ∧
      command.parameters = [(Sql.placeholder 1, .int32 1), (Sql.placeholder 2, .int32 2)] := by
  obtain ⟨commands, run⟩ : ∃ commands,
      (Request.mutation Sample.link).commands Sample.context = .ok commands := ⟨_, rfl⟩
  obtain ⟨statements, q, compiled, rfl, each⟩ := bindings_of_commands run
  cases compiled
  refine ⟨_, run, rfl, fun command member => ?_⟩
  obtain ⟨s, given, rfl⟩ := List.mem_map.1 member
  obtain ⟨t, values, -, -, binds⟩ := each s given
  have held := congrArg (List.map (·.value)) binds.tree
  rw [Sql.Parameter.values_numberedFrom] at held
  rw [binds.text, binds.bound, ← held]
  simp only [List.mem_cons, List.not_mem_nil, or_false] at given
  rcases given with rfl | rfl
  · exact ⟨rfl, rfl⟩
  · exact ⟨rfl, rfl⟩

end Request

end ResourceSql
