/-
Sessions: a state, and the scopes that are used with it. Calls may be made in any of the
scopes, in any order, under any dialect, and may fail; all scopes stay toured
(`Reached.toured`). So whether a filter is refused, and why, depends on the metadata and
the type of the root, and neither on the state nor on the joins
(`Reached.verdict_condition`). What a query asks for is refused in its count exactly if
it is refused among its rows, and binds the same values there.
-/
import ResourceSql.Proofs.Calls
import ResourceSql.Proofs.Pagination

namespace ResourceSql

open Sql

/-- A root, and the tables that were joined to it. -/
structure Scope where
  root : Occurrence
  joins : List PathJoin

/-- The progress of a compilation in a scope, with the state of another progress. -/
def Scope.resume (s : Scope) (p : Progress) : Progress := { p with joins := s.joins }

/-- A state, and the scopes that are used with it, as calls lead to them. A scope may be opened for
any root; a call in a scope changes its joins and the state. -/
inductive Reached (m : Metadata) : Progress → List Scope → Prop
  | start : Reached m .start []
  | opened {p : Progress} {scopes : List Scope} (root : Occurrence) :
    Reached m p scopes → Reached m p (⟨root, []⟩ :: scopes)
  | called {p : Progress} (before after : List Scope) {s : Scope} (d : Dialect) (call : Call) :
    Reached m p (before ++ s :: after) →
    Reached m (call.make ⟨m, d⟩ s.root (s.resume p))
      (before ++ ⟨s.root, (call.make ⟨m, d⟩ s.root (s.resume p)).joins⟩ :: after)

section

variable {m : Metadata} {p : Progress} {scopes : List Scope}

/-- What is remembered is right, and every scope is toured. -/
theorem Reached.toured (h : Reached m p scopes) : p.Remembers m ∧
    ∀ s ∈ scopes, ∃ start visits, Toured m ⟨s.root, start, 0, visits⟩ (s.resume p) := by
  induction h with
  | start => exact ⟨.of_empty rfl, by simp⟩
  | @opened p scopes root _ ih =>
    obtain ⟨remembers, each⟩ := ih
    refine ⟨remembers, List.forall_mem_cons.2 ⟨⟨p.tables, [], ?_⟩, each⟩⟩
    exact .opened remembers (Nat.zero_le _) (Nat.le_refl _)
  | @called p before after s d call _ ih =>
    obtain ⟨remembers, each⟩ := ih
    obtain ⟨start, visits, toured⟩ := each s (by simp)
    -- No alias is given back, so that the numbers of the other scopes stay below the new ones.
    have room : Toured m ⟨s.root, start, p.tables, visits⟩ (s.resume p) :=
      { toured with room := Nat.le_refl _ }
    have left := Call.toured_make (c := ⟨m, d⟩) room call
    refine ⟨left.remembers, fun t member => ?_⟩
    have other : t ∈ before ++ s :: after → ∃ start visits, Toured m ⟨t.root, start, 0, visits⟩
        (t.resume (call.make ⟨m, d⟩ s.root (s.resume p))) := by
      intro member
      obtain ⟨start, visits, toured⟩ := each t member
      exact ⟨start, visits, toured.of_joins_eq left.remembers left.room rfl⟩
    simp only [List.mem_append, List.mem_cons] at member other
    rcases member with member | rfl | member
    · exact other (.inl member)
    · exact ⟨start, _, { left with room := Nat.zero_le _ }⟩
    · exact other (.inr (.inr member))

theorem Tours.verdict_eq {t : Tour} {visits : List Visit} {α : Type}
    {expected : Except RequestError Unit} {good : Unit → α → Progress → Prop} {x : Compile α}
    (h : Tours m t expected visits good (x p)) : x.verdict p = expected := by
  unfold Compile.verdict
  cases run : x p with
  | ok a q =>
    rw [run] at h
    obtain ⟨-, _, rfl, -⟩ := h
    rfl
  | error e q =>
    rw [run] at h
    obtain ⟨-, rfl⟩ := h
    rfl

namespace Reached

/-- The verdict on a filter depends on the metadata and the type of the root. -/
theorem verdict_condition (m : Metadata) (name : String) (filter : Request.Filter) :
    ∃ verdict, ∀ {p : Progress} {scopes : List Scope} {s : Scope} (d : Dialect),
      Reached m p scopes → s ∈ scopes → s.root.resource = name →
        (Compile.condition ⟨m, d⟩ s.root filter).verdict (s.resume p) = verdict := by
  cases named : m.findResource name with
  | ok r =>
    refine ⟨m.checkFilter r filter, fun d reached member root => ?_⟩
    obtain ⟨start, visits, toured⟩ := reached.toured.2 _ member
    exact (Compile.tours_condition (c := ⟨m, d⟩) toured (root ▸ named) filter).verdict_eq
  | error e =>
    obtain ⟨why, refused⟩ := Compile.condition_lost e filter
    refine ⟨.error why, fun d _ _ root => ?_⟩
    rw [refused ⟨m, d⟩ _ (root ▸ named)]
    rfl

/-- The verdict on what is asked of resources of a type. -/
theorem verdict_requestCondition {s : Scope} {r : Resource} (reached : Reached m p scopes)
    (member : s ∈ scopes) (named : m.findResource s.root.resource = .ok r) (d : Dialect)
    (id : Option Json) (filter : Option Request.Filter) :
    (Compile.requestCondition ⟨m, d⟩ s.root r id filter).verdict (s.resume p) =
      m.checkAsked r id filter := by
  obtain ⟨start, visits, toured⟩ := reached.toured.2 _ member
  exact (Compile.tours_requestCondition (c := ⟨m, d⟩) toured named r id filter).verdict_eq

end Reached

/-! ## Counts -/

/-- A count binds the values of what is asked for. -/
theorem Compile.values_rowCount {c : Context} {q : Request.Query} {s : Select}
    (accepted : (rowCount c q).result = .ok s) :
    ∃ r, c.metadata.findResource q.resource = .ok r ∧
      c.askedValues r q.id q.filter = .ok (valuesOf s.uses) := by
  obtain ⟨p', run⟩ := result_ok.1 accepted
  obtain ⟨r, table, p, filter, t, opened, asked, rfl, -⟩ := rowCount_run run
  obtain ⟨named, -, sound⟩ := openTable_ok opened
  refine ⟨r, named, ?_⟩
  rw [Select.uses, Source.uses, List.nil_append]
  simpa [orderUses] using values_requestCondition sound.inside asked

theorem Request.Query.parameters_of_rowCount {c : Context} {q : Request.Query} {s : Select}
    (accepted : (Compile.rowCount c q).result = .ok s) :
    ((Statement.select s).command c.dialect).parameters =
      (Parameter.numberedFrom 0 (valuesOf s.uses)).map fun p => (p.name, p.value) := by
  obtain ⟨p', run⟩ := Compile.result_ok.1 accepted
  have issued := Compile.issued_rowCount (d := c.dialect) run
  exact Select.parameters_of_numbered (Issued.numbered_statement (p := .start) issued)

/-- The resources whose rows are read can be counted, with the same parameters. -/
theorem Request.Query.countCommand_of_command {c : Context} {q : Request.Query} {command : Command}
    (run : q.command c = .ok command) :
    ∃ counted, q.countCommand c = .ok counted ∧ counted.parameters = command.parameters := by
  obtain ⟨s, made, rfl⟩ := command_eq_ok.1 run
  obtain ⟨r, named, allowed, found⟩ := Compile.made_rows made
  obtain ⟨a, p, fresh⟩ : ∃ a p, Compile.freshAlias .start = .ok a p := ⟨_, _, rfl⟩
  have opened : Compile.openTable c q.resource .start = .ok (r, r.table (some a)) p :=
    Compile.bind_eq_ok.2 ⟨r, .start, Compile.ofExcept_eq_ok.2 ⟨named, rfl⟩,
      Compile.bind_eq_ok.2 ⟨a, p, fresh, rfl⟩⟩
  have honoured := Database.empty_honours default c.metadata
  obtain ⟨t, filter, -, -, counted⟩ := Compile.rowCount_exists honoured opened allowed.asked
  obtain ⟨r', named', values⟩ := Compile.values_rowCount counted
  obtain rfl := Except.ok.inj (named.symm.trans named')
  refine ⟨_, Except.bind_eq_ok.2 ⟨_, counted, rfl⟩, ?_⟩
  rw [parameters_of_rowCount counted, parameters_of_rows made]
  rw [Except.ok.inj (values.symm.trans found.values)]

/-- **Whether a filter is compiled depends on the metadata, the type of the root and the filter.**
In any two scopes with roots of the same type, whatever was done there and elsewhere before, a
filter is compiled or refused alike, and so is what a request asks for; what can be read can be
counted, with the same parameters. -/
theorem Reached.verdicts_agree {p' : Progress} {scopes' : List Scope} {s s' : Scope}
    (reached : Reached m p scopes) (reached' : Reached m p' scopes') (member : s ∈ scopes)
    (member' : s' ∈ scopes') (same : s.root.resource = s'.root.resource) (d d' : Dialect) :
    (∀ filter, (Compile.condition ⟨m, d⟩ s.root filter).verdict (s.resume p) =
      (Compile.condition ⟨m, d'⟩ s'.root filter).verdict (s'.resume p')) ∧
    (∀ r, m.findResource s.root.resource = .ok r → ∀ id filter,
      (Compile.requestCondition ⟨m, d⟩ s.root r id filter).verdict (s.resume p) =
        (Compile.requestCondition ⟨m, d'⟩ s'.root r id filter).verdict (s'.resume p')) ∧
    ∀ (d : Dialect) (q : Request.Query) (command : Command), q.command ⟨m, d⟩ = .ok command →
      ∃ counted, q.countCommand ⟨m, d⟩ = .ok counted ∧ counted.parameters = command.parameters := by
  refine ⟨fun filter => ?_, fun r named id filter => ?_, fun d q command run => ?_⟩
  · obtain ⟨verdict, always⟩ := verdict_condition m s.root.resource filter
    rw [always d reached member rfl, always d' reached' member' same.symm]
  · rw [verdict_requestCondition reached member named,
      verdict_requestCondition reached' member' (same ▸ named)]
  · exact Request.Query.countCommand_of_command run

end

/-- A filter on books in a new scope, and in one where books were read along and a call failed. -/
theorem Reached.verdicts_agree_books :
    ∃ (p p' : Progress) (s s' : Scope) (command counted : Command),
    Reached Sample.context.metadata p [s] ∧ Reached Sample.context.metadata p' [s'] ∧
      s.joins = [] ∧ s'.joins.map (·.path) = [["sequel"], ["sequel", "prequels"]] ∧
      (Compile.condition Sample.context s.root Sample.filter).verdict (s.resume p) =
        (Compile.condition Sample.context s'.root Sample.filter).verdict (s'.resume p') ∧
      Sample.first.command Sample.context = .ok command ∧
      Sample.first.countCommand Sample.context = .ok counted ∧
      counted.parameters = command.parameters := by
  have opened : Reached Sample.context.metadata .start [⟨⟨"book", .table Sample.books⟩, []⟩] :=
    .opened _ .start
  have walked := opened.called [] [] .postgreSql
    (.walk .toIncluded ["sequel", "prequels"])
  have failed := walked.called [] [] .sqlServer
    (.field ["sequel", "prequels", "title"])
  have agree := verdicts_agree opened failed (List.mem_singleton_self _) (List.mem_singleton_self _)
    rfl .postgreSql .postgreSql
  obtain ⟨command, run⟩ : ∃ command, Sample.first.command Sample.context = .ok command := ⟨_, rfl⟩
  obtain ⟨counted, count, same⟩ := agree.2.2 .postgreSql Sample.first command run
  exact ⟨_, _, _, _, command, counted, opened, failed, rfl, rfl, agree.1 Sample.filter, run, count,
    same⟩

end ResourceSql
