/-
What the window of a query does not change. A query is compiled in one select, or
around a page, and both take the same steps in different orders. So a query is
compiled exactly if its parts are allowed (`rows_ok_iff`), and then its rows have the
columns of the root and of all that is read along, and its parameters are the values of
what is asked for (`made_rows`), none of which depends on the window.
-/
import ResourceSql.Proofs.BoundValues
import ResourceSql.Proofs.Commands
import ResourceSql.Proofs.Included

namespace ResourceSql

open Sql

/-- What a query has to be for its rows to be compiled. -/
structure Metadata.Allows (m : Metadata) (r : Resource) (q : Request.Query) : Prop where
  includes : m.checkIncludes r q.includes = .ok ()
  asked : m.checkAsked r q.id q.filter = .ok ()
  ordered : m.checkOrder r q.sort = .ok ()
  read : ∃ names, m.rowNames q.fields r q.includes = .ok names

/-- What is made of a query has the columns of its rows, and binds the values of what it asks
for. -/
structure Context.Made (c : Context) (r : Resource) (q : Request.Query) (s : Select) : Prop where
  columns : ∃ columns, s.projection = .columns columns ∧
    c.metadata.rowNames q.fields r q.includes = .ok (columns.map Column.name)
  values : c.askedValues r q.id q.filter = .ok (valuesOf s.uses)

/-! ## What is allowed -/

namespace Metadata

variable {m : Metadata} {r : Resource}

theorem checkToMany_of_walk {there : Resource} {path : List String}
    (walked : m.walk true r path = .ok there) : ∃ b, m.checkToMany r path = .ok b := by
  induction path generalizing r with
  | nil => exact ⟨false, rfl⟩
  | cons relationship rest ih =>
    obtain ⟨l, hopped, walked⟩ := Except.bind_eq_ok.1 walked
    obtain ⟨key, resolved, linked⟩ := Except.bind_eq_ok.1 hopped
    have linked : m.link r key = .ok l := linked
    obtain ⟨target, named, -⟩ := Except.bind_eq_ok.1 linked
    obtain rfl := Metadata.target_of_link named linked
    simp only [checkToMany, resolved, named, bind, Except.bind]
    split
    · exact ⟨true, rfl⟩
    · exact ih walked

/-- What can be read along can be looked at for to-many relationships. -/
theorem checkAnyToMany_of_includes {paths : List (List String)}
    (allowed : m.checkIncludes r paths = .ok ()) : ∃ b, m.checkAnyToMany r paths = .ok b := by
  induction paths with
  | nil => exact ⟨false, rfl⟩
  | cons path paths ih =>
    obtain ⟨there, walked, allowed⟩ := Except.bind_eq_ok.1 allowed
    obtain ⟨b, checked⟩ := checkToMany_of_walk walked
    rw [checkAnyToMany, checked]
    cases b with
    | true => exact ⟨true, rfl⟩
    | false => exact ih allowed

theorem projectedColumns_of_rowNames {fields : NameMap (List String)} {includes : List (List String)}
    {names : List String} (read : m.rowNames fields r includes = .ok names) :
    ∃ columns, r.projectedColumns = .ok columns := by
  obtain ⟨_, -, read⟩ := Except.bind_eq_ok.1 read
  obtain ⟨there, here, read⟩ := Except.bind_eq_ok.1 read
  obtain rfl := Except.ok.inj here
  obtain ⟨attributes, selected, -⟩ := Except.bind_eq_ok.1 read
  obtain ⟨primaryKey, _, identified, -⟩ := Resource.selectedAttributes_head selected
  exact ⟨_, Except.bind_eq_ok.2 ⟨_, Except.bind_eq_ok.2 ⟨primaryKey, identified, rfl⟩, rfl⟩⟩

end Metadata

/-- The scope around a page, whose own scope is closed. -/
theorem Sound.aroundPage {c : Context} {r : Resource} {table : Table} {joins : List PathJoin}
    {a : String} {t p : Progress} (sound : Sound c (r.root table) r t)
    (fresh : Compile.freshAlias { t with joins } = .ok a p) :
    Sound c ⟨r.name, .subquery table a⟩ r { p with joins := [] } := by
  cases fresh
  exact ⟨Metadata.findResource_self sound.named, sound.remembers, .nil rfl (Nat.le_refl _)⟩

namespace Compile

section

variable {c : Context} {root : Occurrence} {r : Resource} {q : Request.Query}
  {a : String} {s : Select} {p p' t : Progress}

/-! ## From the select to the request -/

/-- The columns that were read, by name, when all that is read along was joined. -/
theorem read_of_runs {columns : List Column} (sound : Sound c root r { p with joins := [] })
    (includes : includePaths c root q.includes { p with joins := [] } = .ok () p')
    (later : Later Unread p' t) (sound' : Sound c root r t)
    (read : columnsRead c q.fields root t.joins = .ok columns) :
    c.metadata.checkIncludes r q.includes = .ok () ∧
      c.metadata.rowNames q.fields r q.includes = .ok (columns.map Column.name) := by
  have kept : Keeps c root r AnyFits { p with joins := [] } _ _ _ :=
    keeps_includePaths q.includes sound fun _ _ _ _ _ _ => trivial
  obtain ⟨-, -, _, allowed, -⟩ := kept.of_ok includes
  refine ⟨allowed, ?_⟩
  rw [← names_columnsRead q.fields sound includes later sound', read]
  rfl

theorem made_plainRows (sound : Sound c (r.root (r.table (some a))) r p)
    (run : plainRows c q r (r.table (some a)) p = .ok s p') :
    c.metadata.Allows r q ∧ c.Made r q s := by
  obtain ⟨p₁, filter, p₂, terms, t, columns, includes, first, second, read, rfl, -⟩ :=
    plainRows_run run
  have opened := (extends_includePaths sound.inside includes).sound
  obtain ⟨arranged, later, asked, ordered⟩ := arranged_of_run
    (Database.empty_honours default c.metadata) rfl opened (FitsFields.unread c r) first second
  obtain ⟨allowed, names⟩ := read_of_runs sound.inside includes later arranged.sound read
  refine ⟨⟨allowed, asked, ordered, _, names⟩, ⟨columns, rfl, names⟩, ?_⟩
  rw [Select.uses, Source.uses, uses_order second, List.nil_append, List.append_nil]
  exact values_requestCondition opened first

theorem made_pagedRows (sound : Sound c (r.root (r.table (some a))) r p)
    (run : pagedRows c q r (r.table (some a)) p = .ok s p') :
    c.metadata.Allows r q ∧ c.Made r q s := by
  obtain ⟨inner, p₁, b, p₂, p₃, terms, t, columns, paged, fresh, includes, second, read, rfl, -⟩ :=
    pagedRows_run run
  obtain ⟨filter, p₄, terms', t', columns', first, second', -, rfl, rfl⟩ := page_run paged
  have honoured := Database.empty_honours default c.metadata
  have fit := FitsFields.unread c r
  obtain ⟨arranged, -, asked, ordered⟩ :=
    arranged_of_run honoured rfl sound.inside fit first second'
  -- Around the page, the tables that are read along are joined in a scope that is empty again.
  have start := Sound.aroundPage arranged.sound fresh
  have opened := (extends_includePaths start includes).sound
  obtain ⟨around, later, -⟩ := (keeps_order honoured opened fit q.sort).of_ok second
  obtain ⟨allowed, names⟩ := read_of_runs start includes later around read
  refine ⟨⟨allowed, asked, ordered, _, names⟩, ⟨columns, rfl, names⟩, ?_⟩
  rw [Select.uses, Source.uses, Select.uses_named, filterUses, uses_order second, List.append_nil,
    List.append_nil, Select.uses, Source.uses, uses_order second', List.nil_append, List.append_nil]
  exact values_requestCondition sound.inside first

/-- What is made of a query is made of its parts, in one select or around a page. -/
theorem made_rows (accepted : (rows c q).result = .ok s) :
    ∃ r, c.metadata.findResource q.resource = .ok r ∧ c.metadata.Allows r q ∧ c.Made r q s := by
  obtain ⟨p', run⟩ := result_ok.1 accepted
  obtain ⟨r, a, p, named, sound, run⟩ := rows_in_scope run
  refine ⟨r, named, ?_⟩
  rcases run with run | run
  · exact made_plainRows sound run
  · exact made_pagedRows sound run

/-! ## From the request to the select -/

/-- What can be read along can be joined in any scope. -/
theorem includes_exist (sound : Sound c root r p)
    (allowed : c.metadata.checkIncludes r q.includes = .ok ()) :
    ∃ p', includePaths c root q.includes p = .ok () p' ∧ Sound c root r p' := by
  have kept : Keeps c root r AnyFits p _ _ _ :=
    keeps_includePaths q.includes sound fun _ _ _ _ _ _ => trivial
  obtain ⟨_, p', run, sound, -⟩ := kept.exists_ok allowed
  exact ⟨p', run, sound⟩

/-- A request whose parts are allowed can be arranged in any scope. -/
theorem arranged_exists (sound : Sound c root r p)
    (asked : c.metadata.checkAsked r q.id q.filter = .ok ())
    (ordered : c.metadata.checkOrder r q.sort = .ok ()) :
    ∃ filter p₁ terms t, requestCondition c root r q.id q.filter p = .ok filter p₁ ∧
      order c root q.sort p₁ = .ok terms t ∧ Sound c root r t ∧ Later Unread p t := by
  have honoured := Database.empty_honours default c.metadata
  have fit := FitsFields.unread c r
  obtain ⟨filter, p₁, first, sound, later⟩ :=
    (keeps_requestCondition honoured sound fit q.id q.filter).exists_ok asked
  obtain ⟨terms, t, second, sound, later'⟩ := (keeps_order honoured sound fit q.sort).exists_ok ordered
  exact ⟨filter, p₁, terms, t, first, second, sound, later.trans later'⟩

/-- The columns of the rows can be read when all that is read along was joined. -/
theorem read_exists (sound : Sound c root r { p with joins := [] })
    (read : ∃ names, c.metadata.rowNames q.fields r q.includes = .ok names)
    (includes : includePaths c root q.includes { p with joins := [] } = .ok () p')
    (later : Later Unread p' t) (sound' : Sound c root r t) :
    ∃ columns, projection c root q.fields t = .ok (.columns columns) t := by
  obtain ⟨names, read⟩ := read
  rw [← names_columnsRead q.fields sound includes later sound'] at read
  rw [projection_apply]
  cases found : columnsRead c q.fields root t.joins with
  | ok columns => exact ⟨columns, rfl⟩
  | error e =>
    rw [found] at read
    cases read

theorem plainRows_of_allows (sound : Sound c (r.root (r.table (some a))) r p)
    (allowed : c.metadata.Allows r q) :
    ∃ s p', plainRows c q r (r.table (some a)) p = .ok s p' := by
  obtain ⟨p₁, includes, opened⟩ := includes_exist sound.inside allowed.includes
  obtain ⟨filter, p₂, terms, t, first, second, sound', later⟩ :=
    arranged_exists opened allowed.asked allowed.ordered
  obtain ⟨columns, read⟩ := read_exists sound.inside allowed.read includes later sound'
  exact ⟨_, _, joining_of_ok (bind_eq_ok.2 ⟨_, p₁, includes, bind_eq_ok.2 ⟨filter, p₂, first,
    bind_eq_ok.2 ⟨terms, t, second, bind_eq_ok.2 ⟨_, t, read, rfl⟩⟩⟩⟩)⟩

theorem pagedRows_of_allows (sound : Sound c (r.root (r.table (some a))) r p)
    (allowed : c.metadata.Allows r q) :
    ∃ s p', pagedRows c q r (r.table (some a)) p = .ok s p' := by
  obtain ⟨filter, p₁, terms, t, first, second, sound', -⟩ :=
    arranged_exists sound.inside allowed.asked allowed.ordered
  obtain ⟨names, read⟩ := allowed.read
  obtain ⟨columns, projected⟩ := Metadata.projectedColumns_of_rowNames read
  obtain ⟨inner, paged⟩ : ∃ inner, page c q r (r.table (some a)) p =
      .ok inner { t with joins := p.joins } :=
    ⟨_, joining_of_ok (bind_eq_ok.2 ⟨filter, p₁, first, bind_eq_ok.2 ⟨terms, t, second,
      bind_eq_ok.2 ⟨columns, t, ofExcept_eq_ok.2 ⟨projected, rfl⟩, rfl⟩⟩⟩)⟩
  obtain ⟨b, p₂, fresh⟩ : ∃ b p₂, freshAlias { t with joins := p.joins } = .ok b p₂ := ⟨_, _, rfl⟩
  have start := Sound.aroundPage sound' fresh
  obtain ⟨p₃, includes, opened⟩ := includes_exist start allowed.includes
  obtain ⟨terms', t', second', around, later⟩ := (keeps_order
    (Database.empty_honours default c.metadata) opened (FitsFields.unread c r) q.sort).exists_ok
      allowed.ordered
  obtain ⟨columns', read⟩ := read_exists start allowed.read includes later around
  exact ⟨_, _, bind_eq_ok.2 ⟨inner, _, paged, bind_eq_ok.2 ⟨b, p₂, fresh, joining_of_ok
    (bind_eq_ok.2 ⟨_, p₃, includes, bind_eq_ok.2 ⟨terms', t', second',
      bind_eq_ok.2 ⟨_, t', read, rfl⟩⟩⟩)⟩⟩⟩

/-- A query is compiled exactly if its parts are allowed. -/
theorem rows_ok_iff : (∃ s, (rows c q).result = .ok s) ↔
    ∃ r, c.metadata.findResource q.resource = .ok r ∧ c.metadata.Allows r q := by
  constructor
  · rintro ⟨s, accepted⟩
    obtain ⟨r, named, allowed, -⟩ := made_rows accepted
    exact ⟨r, named, allowed⟩
  · rintro ⟨r, named, allowed⟩
    obtain ⟨a, p, fresh⟩ : ∃ a p, freshAlias .start = .ok a p := ⟨_, _, rfl⟩
    have opened : openTable c q.resource .start = .ok (r, r.table (some a)) p :=
      bind_eq_ok.2 ⟨r, .start, ofExcept_eq_ok.2 ⟨named, rfl⟩, bind_eq_ok.2 ⟨a, p, fresh, rfl⟩⟩
    have sound := Sound.start opened
    cases windowed : q.window.isAll with
    | true =>
      obtain ⟨s, p', made⟩ := plainRows_of_allows sound allowed
      refine ⟨s, result_ok.2 ⟨p', bind_eq_ok.2 ⟨_, p, opened, ?_⟩⟩⟩
      dsimp only
      rw [windowed]
      exact made
    | false =>
      obtain ⟨_, checked⟩ := Metadata.checkAnyToMany_of_includes allowed.includes
      have kept : Keeps c (r.root (r.table (some a))) r AnyFits _ _ _ _ :=
        keeps_anyLeadsToMany q.includes sound
      obtain ⟨paged, p₁, looked, sound, -⟩ := kept.exists_ok checked
      have made : ∃ s p', (if paged then pagedRows c q r (r.table (some a))
          else plainRows c q r (r.table (some a))) p₁ = .ok s p' := by
        cases paged with
        | true => exact pagedRows_of_allows sound allowed
        | false => exact plainRows_of_allows sound allowed
      obtain ⟨s, p', made⟩ := made
      refine ⟨s, result_ok.2 ⟨p', bind_eq_ok.2 ⟨_, p, opened, ?_⟩⟩⟩
      dsimp only
      rw [windowed]
      exact bind_eq_ok.2 ⟨paged, p₁, looked, made⟩

end

end Compile

/-! ## Windows -/

/-- The parameters of a numbered select are those of the values that it binds, in their order. -/
theorem Sql.Select.parameters_of_numbered {s : Select} {d : Dialect} {t : Progress}
    (numbered : (Statement.select s).Numbered d t) :
    ((Statement.select s).command d).parameters =
      (Parameter.numberedFrom 0 (valuesOf s.uses)).map fun p => (p.name, p.value) := by
  obtain ⟨values, numbered, -⟩ := numbered
  have parameters : s.uses.map (·.parameter) = Parameter.numberedFrom 0 values :=
    (s.parameters_eq d).symm.trans numbered
  have bound : valuesOf s.uses = values := by
    rw [← Parameter.values_numberedFrom 0 values, ← parameters, List.map_map]
    rfl
  have bindings := bindingsOf_numberedFrom numbered
  rw [numbered] at bindings
  rw [bound]
  exact bindings

namespace Request.Query

variable {c : Context} {q : Request.Query}

theorem command_eq_ok {command : Command} : q.command c = .ok command ↔
    ∃ s, (Compile.rows c q).result = .ok s ∧ command = (Statement.select s).command c.dialect := by
  rw [Query.command]
  constructor
  · intro run
    obtain ⟨s, accepted, run⟩ := Except.bind_eq_ok.1 run
    cases run
    exact ⟨s, accepted, rfl⟩
  · rintro ⟨s, accepted, rfl⟩
    exact Except.bind_eq_ok.2 ⟨s, accepted, rfl⟩

/-- The parameters of a query are numbered in the order of the values that it binds. -/
theorem parameters_of_rows {s : Select} (accepted : (Compile.rows c q).result = .ok s) :
    ((Statement.select s).command c.dialect).parameters =
      (Parameter.numberedFrom 0 (valuesOf s.uses)).map fun p => (p.name, p.value) := by
  obtain ⟨p', run⟩ := Compile.result_ok.1 accepted
  have issued := Compile.issued_rows (d := c.dialect) run
  exact Select.parameters_of_numbered (Issued.numbered_statement (p := .start) issued)

/-- **A window changes neither whether a query is compiled nor what its rows look like.** Queries
that differ in their windows are both compiled or both refused, and bind the same parameters. The
columns that their rows have, by name, are those of the root and then those of all that is read
along, which neither what is asked for nor its order changes. -/
theorem window_keeps_shape (c : Context) (q : Request.Query) (window : Window) :
    ((∃ command, q.command c = .ok command) ↔
      ∃ command, ({ q with window } : Request.Query).command c = .ok command) ∧
    (∀ command command', q.command c = .ok command →
      ({ q with window } : Request.Query).command c = .ok command' →
        command.parameters = command'.parameters) ∧
    ∀ id filter sort window s s', (Compile.rows c q).result = .ok s →
      (Compile.rows c { q with id, filter, sort, window }).result = .ok s' →
        ∃ r columns columns', c.metadata.findResource q.resource = .ok r ∧
          s.projection = .columns columns ∧ s'.projection = .columns columns' ∧
          columns.map Column.name = columns'.map Column.name ∧
          c.metadata.namesAt q.fields r ([] :: placesAlong q.includes) =
            .ok (columns.map Column.name) := by
  have same (r : Resource) : c.metadata.Allows r q ↔ c.metadata.Allows r { q with window } :=
    ⟨fun h => ⟨h.includes, h.asked, h.ordered, h.read⟩,
      fun h => ⟨h.includes, h.asked, h.ordered, h.read⟩⟩
  have accepted (q : Request.Query) : (∃ command, q.command c = .ok command) ↔
      ∃ r, c.metadata.findResource q.resource = .ok r ∧ c.metadata.Allows r q := by
    rw [← Compile.rows_ok_iff]
    constructor
    · rintro ⟨command, run⟩
      obtain ⟨s, made, -⟩ := command_eq_ok.1 run
      exact ⟨s, made⟩
    · rintro ⟨s, made⟩
      exact ⟨_, command_eq_ok.2 ⟨s, made, rfl⟩⟩
  refine ⟨?_, ?_, ?_⟩
  · rw [accepted, accepted]
    exact exists_congr fun r => and_congr_right fun _ => same r
  · intro command command' run run'
    obtain ⟨s, made, rfl⟩ := command_eq_ok.1 run
    obtain ⟨s', made', rfl⟩ := command_eq_ok.1 run'
    obtain ⟨r, named, -, found⟩ := Compile.made_rows made
    obtain ⟨r', named', -, found'⟩ := Compile.made_rows made'
    obtain rfl := Except.ok.inj (named.symm.trans named')
    have values := Except.ok.inj (found.values.symm.trans found'.values)
    rw [parameters_of_rows made, parameters_of_rows made', values]
  · intro id filter sort window s s' made made'
    obtain ⟨r, named, -, found⟩ := Compile.made_rows made
    obtain ⟨r', named', -, found'⟩ := Compile.made_rows made'
    obtain rfl := Except.ok.inj (named.symm.trans named')
    obtain ⟨columns, projected, names⟩ := found.columns
    obtain ⟨columns', projected', names'⟩ := found'.columns
    obtain ⟨_, -, read⟩ := Except.bind_eq_ok.1 names
    exact ⟨r, columns, columns', named, projected, projected',
      Except.ok.inj (names.symm.trans names'), read⟩

end Request.Query

/-- The first book, as a page of one book. -/
def Sample.first : Request.Query := { Sample.query with id := some (.number (.integer 1)) }

theorem Request.Query.window_keeps_shape_books : ∃ command command' s s' columns columns',
    Sample.first.command Sample.context = .ok command ∧
    ({ Sample.first with window := .all } : Request.Query).command Sample.context = .ok command' ∧
    command.parameters = command'.parameters ∧
    (Compile.rows Sample.context Sample.first).result = .ok s ∧
    (Compile.rows Sample.context { Sample.first with window := .all }).result = .ok s' ∧
    s.projection = .columns columns ∧ s'.projection = .columns columns' ∧
    columns.map Column.name = ["id", "title", "id", "title"] ∧
    columns'.map Column.name = ["id", "title", "id", "title"] := by
  obtain ⟨same, parameters, shape⟩ := window_keeps_shape Sample.context Sample.first .all
  obtain ⟨s, made⟩ : ∃ s, (Compile.rows Sample.context Sample.first).result = .ok s := ⟨_, rfl⟩
  obtain ⟨s', made'⟩ : ∃ s', (Compile.rows Sample.context
      { Sample.first with window := .all }).result = .ok s' := ⟨_, rfl⟩
  have run := command_eq_ok.2 ⟨s, made, rfl⟩
  obtain ⟨command', run'⟩ := same.1 ⟨_, run⟩
  obtain ⟨r, columns, columns', named, projected, projected', alike, names⟩ :=
    shape _ none [] .all s s' made made'
  obtain rfl := Sample.findResource_eq named
  have read := (Except.ok.inj names).symm
  exact ⟨_, command', s, s', columns, columns', run, run', parameters _ _ run run', made, made',
    projected, projected', read, alike.symm.trans read⟩

end ResourceSql
