/-
The meaning of compiled filters. A filter is compiled exactly if the metadata
allow it (`Metadata.checkFilter`), and its condition has, on every joined row of
a row, the truth that the filter has on the graph (`keeps_condition`, by
induction on the filter; the filter of `has` is compiled in a scope of its own).
Whatever was compiled in a scope before does not matter (`Visited.sound`).
-/
import ResourceSql.Compile.Query
import ResourceSql.Proofs.Comparisons

namespace ResourceSql

section

variable {g : Engine} {db : Database} {c : Context} {root : Occurrence} {r : Resource}
  {fits : List String → Bool → Prop} {p q : Progress} {α β : Type}

namespace Opened

/-- On all rows, a select over related resources finds one if there are any. -/
theorem exists_unfiltered {path : List String} {l : Link} {here : Occurrence} {number : Nat}
    (h : Opened g db c root r path l q here number) :
    OnRows g db c root r q fun row e =>
      (!(((l.opened here number).select .one [] []).result g db e).isEmpty) =
        (Graph.related g db c r row path).any fun found =>
          Graph.optionalMeaning g db c found.1 none found.2 = .true := by
  refine h.rows.imp fun row e same => ?_
  rw [Sql.Select.result_one rfl rfl rfl, h.matched_rows, ← same, List.any_map]
  simp only [Graph.optionalMeaning]
  cases l.rows g db (e here.aliasName) with
  | nil => rfl
  | cons first rest => rfl

/-- On all rows, a select over related resources that pass a filter finds one if there are any. The
scope of the filter is that of `s`. -/
theorem exists_filtered {path : List String} {l : Link} {here : Occurrence} {number : Nat}
    {filter : Request.Filter} {condition : Sql.Condition} {s : Progress}
    (honoured : db.Honours g c.metadata) (h : Opened g db c root r path l q here number)
    (sound : Sound c (l.opened here number).root l.target s)
    (means : OnRows g db c (l.opened here number).root l.target s fun row e =>
      condition.truth g db e = Graph.meaning g db c l.target filter row) :
    OnRows g db c root r q fun row e =>
      (!(((l.opened here number).select .one s.joins [condition]).result g db e).isEmpty) =
        (Graph.related g db c r row path).any fun found =>
          Graph.optionalMeaning g db c found.1 (some filter) found.2 = .true := by
  refine h.rows.imp fun row e same => ?_
  rw [Sql.Select.result_one rfl rfl rfl, ← same, List.any_map, Bool.eq_iff_iff, Bool.not_eq_true',
    List.isEmpty_eq_false_iff_exists_mem, List.any_eq_true]
  simp only [List.mem_map, Function.comp_apply, Graph.optionalMeaning]
  have inside : ∀ related ∈ l.rows g db (e here.aliasName),
      related ∈ db.rowsOf l.target ∧ l.target.Shows
        ((e.bind (some (tableAlias number)) related) (l.opened here number).root.aliasName)
        related := by
    intro related member
    refine ⟨(List.mem_filter.1 member).1, fun column _ => ?_⟩
    show (e.bind (some (tableAlias number)) related) (some (tableAlias number)) column = _
    rw [Bound.bind_self]
  constructor
  · rintro ⟨_, e', matched, -⟩
    obtain ⟨related, member, joined, holds⟩ := (h.mem_matched_iff sound.linked).1 matched
    obtain ⟨stored, shows⟩ := inside related member
    rw [Sql.truths, Sql.truths, Truth.all, Truth.all, Truth.and_true] at holds
    rw [means.here sound stored shows joined] at holds
    exact ⟨related, member, decide_eq_true holds⟩
  · rintro ⟨related, member, holds⟩
    obtain ⟨stored, shows⟩ := inside related member
    obtain ⟨e', joined⟩ := List.exists_mem_of_ne_nil _
      (sound.linked.joinAll_ne_nil honoured sound.named stored shows)
    refine ⟨_, e', (h.mem_matched_iff sound.linked).2 ⟨related, member, joined, ?_⟩, rfl⟩
    rw [Sql.truths, Sql.truths, Truth.all, Truth.all, Truth.and_true]
    rw [means.here sound stored shows joined]
    exact of_decide_eq_true holds

end Opened

namespace Compile

/-- A step in a scope of its own leaves the joins outside as they are. -/
theorem keeps_inOwnScope {inside : Occurrence} {type : Resource}
    {fits' : List String → Bool → Prop} {expected : Except RequestError β}
    {good : β → α → Progress → Prop} {x : Compile α} (sound : Sound c root r p)
    (h : Keeps c inside type fits' { p with joins := [] } expected good
      (x { p with joins := [] })) :
    Keeps c root r fits p expected
      (fun b a _ => ∃ s, Sound c inside type s ∧ Later fits' { p with joins := [] } s ∧
        s.joins = a.2 ∧ good b a.1 s)
      (inOwnScope x p) := by
  have back : ∀ s, Sound c inside type s → Later fits' { p with joins := [] } s →
      Sound c root r { s with joins := p.joins } ∧ Later fits p { s with joins := p.joins } := by
    intro s sound' later
    exact ⟨⟨sound.named, sound'.remembers, sound.linked.mono later.tables⟩,
      .of_joins_eq later.tables rfl⟩
  unfold inOwnScope
  cases result : x { p with joins := [] } with
  | ok a s =>
    rw [result] at h
    obtain ⟨sound', later, b, same, fine⟩ := h
    obtain ⟨sound, later'⟩ := back s sound' later
    exact ⟨sound, later', b, same, s, sound', later, rfl, fine⟩
  | error e s =>
    rw [result] at h
    obtain ⟨sound', later, same⟩ := h
    obtain ⟨sound, later'⟩ := back s sound' later
    exact ⟨sound, later', same⟩

theorem keeps_joined (g : Engine) (db : Database) (sound : Sound c root r p) (connective : Connective)
    (conditions : List Sql.Condition) :
    Keeps c root r fits p
      (if conditions.isEmpty then throw (.notSupported .emptyLogical) else Pure.pure ())
      (fun _ condition _ => ∀ e,
        condition.truth g db e = .joined connective (Sql.truths g db conditions e))
      (joined connective conditions p) := by
  unfold joined
  cases combined : Sql.Condition.combine connective conditions with
  | none =>
    obtain rfl := Sql.Condition.combine_eq_none_iff.1 combined
    exact Keeps.throw sound
  | some condition =>
    cases conditions with
    | nil => cases combined
    | cons first rest => exact Keeps.pure sound fun e => Sql.Condition.truth_combine combined

mutual

/-- On all rows, the condition of a filter has the truth that the filter has on the graph. -/
theorem keeps_condition (honoured : db.Honours g c.metadata) {root : Occurrence} {r : Resource}
    {fits : List String → Bool → Prop} {p : Progress} (sound : Sound c root r p)
    (fit : FitsFields c r fits) : (filter : Request.Filter) →
    Keeps c root r fits p (c.metadata.checkFilter r filter)
      (fun _ condition q => OnRows g db c root r q fun row e =>
        condition.truth g db e = Graph.meaning g db c r filter row)
      (condition c root filter p)
  | .and terms => by
    rw [condition, Metadata.checkFilter]
    refine Keeps.bind (keeps_conditions honoured sound fit terms) ?_
    rintro _ conditions q sound _ _ ⟨same, means⟩
    rw [← same]
    refine (keeps_joined g db sound .and conditions).imp ?_
    intro _ condition s _ later joins
    refine (means.later later).imp fun row e same => ?_
    rw [joins, same, Graph.meaning]
    rfl
  | .or terms => by
    rw [condition, Metadata.checkFilter]
    refine Keeps.bind (keeps_conditions honoured sound fit terms) ?_
    rintro _ conditions q sound _ _ ⟨same, means⟩
    rw [← same]
    refine (keeps_joined g db sound .or conditions).imp ?_
    intro _ condition s _ later joins
    refine (means.later later).imp fun row e same => ?_
    rw [joins, same, Graph.meaning]
    rfl
  | .not filter => by
    rw [condition, Metadata.checkFilter]
    refine Keeps.map (keeps_condition honoured sound fit filter) ?_
    intro _ condition q _ means
    refine means.imp fun row e same => ?_
    rw [Sql.Condition.truth, Graph.meaning, same]
  | .comparison operator left right => by
    rw [condition, Metadata.checkFilter]
    refine (keeps_comparison honoured sound fit operator left right).imp ?_
    intro _ condition q _ _ means
    refine means.imp fun row e same => ?_
    rw [Graph.meaning, same]
  | .textMatch place path text => by
    rw [condition]
    exact keeps_textMatch honoured sound fit place path text
  | .any path values => by
    rw [condition]
    exact keeps_anyOf honoured sound fit path values
  | .has path filter => by
    rw [condition, Metadata.checkFilter]
    refine Keeps.map (keeps_relatedSelect honoured sound fit path filter) ?_
    intro _ select q _ means
    refine means.imp fun row e same => ?_
    rw [Sql.Condition.truth, Graph.meaning, same]

theorem keeps_relatedSelect (honoured : db.Honours g c.metadata) {root : Occurrence} {r : Resource}
    {fits : List String → Bool → Prop} {p : Progress} (sound : Sound c root r p)
    (fit : FitsFields c r fits) (path : List String) : (filter : Option Request.Filter) →
    Keeps c root r fits p
      (c.metadata.relatedOf r path >>= fun link => c.metadata.checkRelated link.target filter)
      (fun _ select q => OnRows g db c root r q fun row e =>
        (!(select.result g db e).isEmpty) =
          (Graph.related g db c r row path).any fun found =>
            Graph.optionalMeaning g db c found.1 filter found.2 = .true)
      (relatedSelect c root path .one filter p)
  | none => by
    rw [relatedSelect]
    refine Keeps.bind (keeps_related honoured sound fit path) ?_
    rintro l _ q sound _ _ ⟨here, number, rfl, opened⟩
    rw [Metadata.checkRelated]
    exact Keeps.pure sound opened.exists_unfiltered
  | some filter => by
    rw [relatedSelect]
    refine Keeps.bind (keeps_related honoured sound fit path) ?_
    rintro l _ q sound _ _ ⟨here, number, rfl, opened⟩
    have start : Sound c (l.opened here number).root l.target { q with joins := [] } :=
      ⟨opened.found, sound.remembers, .nil rfl opened.below⟩
    rw [Metadata.checkRelated]
    refine Keeps.map (keeps_inOwnScope sound (keeps_condition honoured start
      (FitsFields.any c l.target) filter)) ?_
    rintro _ ⟨inner, joins⟩ s later ⟨t, sound', _, rfl, means⟩
    exact (opened.exists_filtered honoured sound' means).later later

theorem keeps_conditions (honoured : db.Honours g c.metadata) {root : Occurrence} {r : Resource}
    {fits : List String → Bool → Prop} {p : Progress} (sound : Sound c root r p)
    (fit : FitsFields c r fits) : (filters : List Request.Filter) →
    Keeps c root r fits p (c.metadata.checkFilters r filters)
      (fun _ conditions q => conditions.isEmpty = filters.isEmpty ∧
        OnRows g db c root r q fun row e =>
          Sql.truths g db conditions e = Graph.meanings g db c r filters row)
      (conditions c root filters p)
  | [] => by
    rw [conditions, Metadata.checkFilters]
    exact Keeps.pure sound ⟨rfl, .of_forall fun _ _ => rfl⟩
  | filter :: filters => by
    rw [conditions, Metadata.checkFilters]
    refine Keeps.bind (keeps_condition honoured sound fit filter) ?_
    intro _ condition q sound _ _ means
    refine Keeps.map (keeps_conditions honoured sound fit filters) ?_
    rintro _ conditions s later ⟨-, means'⟩
    refine ⟨rfl, ((means.later later).and means').imp ?_⟩
    rintro row e ⟨first, rest⟩
    rw [Sql.truths, Graph.meanings, first, rest]

end

end Compile

/-! ## Scopes while compiling -/

/-- A step in the scope of a root. -/
inductive Step (c : Context) (root : Occurrence) : {α : Type} → Compile α → Prop
  | walk (walk : Walk) (path : List String) : Step c root (Compile.walkPath c walk root path)
  | field (path : List String) : Step c root (Compile.field c root path)
  | count (path : List String) : Step c root (Compile.count c root path)
  | filter (filter : Request.Filter) : Step c root (Compile.condition c root filter)
  | bind (value : Value) : Step c root (Compile.bindValue value)
  | key {declaring : Resource} (relationship : String) :
    c.metadata.findResource declaring.name = .ok declaring →
    Step c root (Compile.foreignKey c.metadata declaring relationship)

/-- A root and the progress in its scope, as they come about while compiling: a scope is opened for
the table of a type of resources, for the rows that belong to a row, or around a select that became
a source; steps are taken in it, some of which may have failed. -/
inductive Visited (c : Context) : Occurrence → Progress → Prop
  | start {name : String} {resource : Resource} {table : Sql.Table} {q : Progress} :
    Compile.openTable c name .start = .ok (resource, table) q →
    Visited c ⟨resource.name, .table table⟩ q
  | related {root : Occurrence} {p q : Progress} {path : List String} {opened : Related} :
    Visited c root p → Compile.related c root path p = .ok opened q →
    Visited c opened.root { q with joins := [] }
  | source {root : Occurrence} {p q : Progress} {table : Sql.Table} {aliasName : String} :
    Visited c root p → Compile.freshAlias p = .ok aliasName q →
    Visited c ⟨root.resource, .subquery table aliasName⟩ { q with joins := [] }
  | step {root : Occurrence} {p q : Progress} {α : Type} {x : Compile α} {a : α} :
    Visited c root p → Step c root x → x p = .ok a q → Visited c root q
  | failed {root : Occurrence} {p q : Progress} {α : Type} {x : Compile α} {e : RequestError} :
    Visited c root p → Step c root x → x p = .error e q → Visited c root q

theorem Step.sound {x : Compile α} (honoured : db.Honours g c.metadata) (h : Step c root x)
    (sound : Sound c root r p) : Sound c root r (.after (x p)) := by
  have fit := Compile.FitsFields.any c r
  cases h with
  | walk walk path =>
    have kept : Keeps c root r Compile.AnyFits p (c.metadata.walk walk.toMany r path) _
        (Compile.walkPath c walk root path p) :=
      Compile.keeps_walkPath sound fun _ _ _ _ => trivial
    exact kept.sound
  | field path => exact (Compile.keeps_field honoured sound fit path).sound
  | count path => exact (Compile.keeps_count honoured sound fit path).sound
  | filter filter =>
    exact (Compile.keeps_condition honoured sound fit filter).sound
  | bind value =>
    have kept : Keeps c root r Compile.AnyFits p _ _ _ := Compile.keeps_bindValue sound value
    exact kept.sound
  | key relationship found =>
    have kept : Keeps c root r Compile.AnyFits p _ _ _ :=
      Compile.keeps_foreignKey sound found relationship
    exact kept.sound

theorem Sound.start {name : String} {resource : Resource} {table : Sql.Table}
    (opened : Compile.openTable c name .start = .ok (resource, table) q) :
    Sound c ⟨resource.name, .table table⟩ resource q := by
  unfold Compile.openTable at opened
  cases found : c.metadata.findResource name with
  | error e =>
    rw [found] at opened
    cases opened
  | ok other =>
    rw [found] at opened
    cases opened
    refine ⟨Metadata.findResource_self found, ?_, .nil rfl (Nat.le_refl _)⟩
    rintro memory ⟨⟩ _ _ _ member
    cases member

/-- Every scope that comes about while compiling is sound. -/
theorem Visited.sound (honoured : db.Honours g c.metadata) (h : Visited c root p) :
    ∃ r, Sound c root r p := by
  induction h with
  | start opened => exact ⟨_, .start opened⟩
  | @related root p q path opened _ run ih =>
    obtain ⟨r, sound⟩ := ih
    have kept := Compile.keeps_related honoured sound (Compile.FitsFields.any c r) path
    rw [run] at kept
    obtain ⟨sound, -, l, -, here, number, rfl, opens⟩ := kept
    exact ⟨l.target, opens.found, sound.remembers, .nil rfl opens.below⟩
  | source _ run ih =>
    obtain ⟨r, sound⟩ := ih
    have kept : Keeps c _ r Compile.AnyFits _ _ _ _ := Compile.keeps_freshAlias sound
    rw [run] at kept
    obtain ⟨sound, -, _, -, rfl, rfl⟩ := kept
    exact ⟨r, sound.named, sound.remembers, .nil rfl (Nat.le_refl _)⟩
  | @step root p q _ x _ _ step run ih =>
    obtain ⟨r, sound⟩ := ih
    have kept := step.sound honoured sound
    rw [run] at kept
    exact ⟨r, kept⟩
  | @failed root p q _ x _ _ step run ih =>
    obtain ⟨r, sound⟩ := ih
    have kept := step.sound honoured sound
    rw [run] at kept
    exact ⟨r, kept⟩

/-- **Compiling a filter preserves its meaning.** In a scope as it may come about, whatever was
joined there before, the condition of a filter has on every joined row of a row the truth that the
filter has for the row on the graph. -/
theorem Compile.truth_condition (honoured : db.Honours g c.metadata) (visited : Visited c root p)
    (named : c.metadata.findResource root.resource = .ok r) {filter : Request.Filter}
    {condition : Sql.Condition} (accepted : Compile.condition c root filter p = .ok condition q)
    {row : Row} (stored : row ∈ db.rowsOf r) {e₀ e : Bound}
    (shows : r.Shows (e₀ root.aliasName) row)
    (joined : e ∈ Sql.joinAll g db (q.joins.map (·.join)) e₀) :
    condition.truth g db e = Graph.meaning g db c r filter row := by
  obtain ⟨other, sound⟩ := visited.sound honoured
  obtain rfl : other = r := Except.ok.inj (sound.named.symm.trans named)
  have kept := keeps_condition honoured sound (FitsFields.any c other) filter
  rw [accepted] at kept
  obtain ⟨sound, -, _, -, means⟩ := kept
  exact means.here sound stored shows joined

end

namespace Sample

/-- Books, each of which may have a sequel. -/
def book : ResourceType where
  schema := none
  table := "books"
  primaryKey := "id"
  attributes := ⟨[("id", ⟨"id", .integer, false, none⟩), ("title", ⟨"title", .text, false, none⟩)],
    by decide⟩
  relationships := ⟨[("prequels", ⟨"book", .toMany, ⟨"sequel_id", false, true⟩, .setNull⟩),
    ("sequel", ⟨"book", .toOne, ⟨"sequel_id", true, true⟩, .setNull⟩)], by decide⟩

def context : Context := ⟨⟨⟨[("book", book)], by decide⟩, .empty⟩, .postgreSql⟩

def engine : Engine where
  holds operator a b := operator = .equals ∧ a = b
  resembles a b := a = b
  number n := .int64 (Int64.ofNat n)
  order _ _ := .eq

def row (id : Int32) (title : String) (sequel : Value) : Row
  | "id" => .int32 id
  | "title" => .text title
  | "sequel_id" => sequel
  | _ => .null

/-- A book and its sequel. -/
def database : Database where
  rows _ _ := [row 1 "Alice" (.int32 2), row 2 "Looking-Glass" .null]

theorem findResource_eq {name : String} {r : Resource}
    (h : context.metadata.findResource name = .ok r) : r = ⟨"book", book⟩ := by
  simp only [Metadata.findResource] at h
  split at h
  · next found =>
    have member := NameMap.mem_of_get? found
    rw [← Except.ok.inj h]
    obtain ⟨rfl, rfl⟩ := Prod.mk.inj (List.mem_singleton.1 member)
    rfl
  · cases h

/-- The foreign key of a relationship allows null. -/
theorem nullable_of_declares {here : Resource} {relationship : String} {l : Link}
    (declared : context.metadata.Declares here relationship l) : l.key.nullable = true := by
  obtain rfl := findResource_eq declared.found
  obtain ⟨d, found, key⟩ := Except.bind_eq_ok.1 declared.key
  obtain ⟨target, -, key⟩ := Except.bind_eq_ok.1 key
  rw [← Except.ok.inj key]
  simp only [Resource.findRelationship] at found
  split at found
  · next looked =>
    obtain rfl := Except.ok.inj found
    have member := NameMap.mem_of_get? looked
    simp only [book, NameMap.toList, List.mem_cons, List.not_mem_nil, or_false, Prod.mk.injEq] at member
    rcases member with ⟨-, rfl⟩ | ⟨-, rfl⟩
    · rfl
    · rfl
  · cases found

/-- A to-one relationship leads to the book with the identifier. -/
theorem columns_of_declares {here : Resource} {relationship : String} {l : Link}
    (declared : context.metadata.Declares here relationship l) (toOne : l.key.isToOne = true) :
    l.target = ⟨"book", book⟩ ∧ l.inner = "id" := by
  obtain rfl := findResource_eq declared.found
  obtain ⟨d, found, key⟩ := Except.bind_eq_ok.1 declared.key
  simp only [Resource.findRelationship] at found
  split at found
  · next looked =>
    obtain rfl := Except.ok.inj found
    have member := NameMap.mem_of_get? looked
    simp only [book, NameMap.toList, List.mem_cons, List.not_mem_nil, or_false, Prod.mk.injEq] at member
    rcases member with ⟨-, rfl⟩ | ⟨-, rfl⟩
    · obtain ⟨target, -, key⟩ := Except.bind_eq_ok.1 key
      rw [← Except.ok.inj key] at toOne
      cases toOne
    · obtain ⟨target, resolved, key⟩ := Except.bind_eq_ok.1 key
      obtain rfl := findResource_eq resolved
      have link := declared.link
      rw [← Except.ok.inj key] at link
      rw [← Except.ok.inj link]
      exact ⟨rfl, rfl⟩
  · cases found

theorem honours : database.Honours engine context.metadata where
  unique := by
    intro name r a found primaryKey
    obtain rfl := findResource_eq found
    obtain rfl := Except.ok.inj primaryKey
    decide
  notNull := by
    intro name r a row found primaryKey stored
    obtain rfl := findResource_eq found
    obtain rfl := Except.ok.inj primaryKey
    simp only [Database.rowsOf, database, List.mem_cons, List.not_mem_nil, or_false] at stored
    rcases stored with rfl | rfl
    · rfl
    · rfl
  single := by
    intro here relationship l held declared toOne stored
    obtain ⟨target, inner⟩ := columns_of_declares declared toOne
    simp only [Link.rows, target, inner]
    have equal : ∀ id title other, engine.compare .equals (held l.outer) (row id title other "id") =
        .true → held l.outer = .int32 id := by
      intro id title other same
      unfold Engine.compare at same
      split at same
      · cases same
      · have same := of_decide_eq_true (Truth.ofBool_eq_true_iff.1 same)
        exact same.2
    show (([row 1 "Alice" (.int32 2), row 2 "Looking-Glass" .null] : List Row).filter _).length ≤ 1
    rw [List.filter_cons, List.filter_cons]
    split
    · next first =>
      split
      · next second =>
        have first := equal _ _ _ (of_decide_eq_true first)
        have second := equal _ _ _ (of_decide_eq_true second)
        rw [first] at second
        cases second
      · exact Nat.le_refl _
    · split
      · exact Nat.le_refl _
      · exact Nat.zero_le _
  complete := by
    intro here relationship l row declared left required stored
    rw [nullable_of_declares declared] at required
    cases required

/-- The table of the books, when a scope is opened for it. -/
def books : Sql.Table := ⟨none, "books", some (tableAlias 1)⟩

/-- Books without a sequel that are sequels. -/
def filter : Request.Filter :=
  .and [.comparison .equals (.field ["sequel", "title"]) .null, .has ["prequels"] none]

theorem visited : Visited context ⟨"book", .table books⟩ ⟨1, 0, some [], []⟩ :=
  have opened : Compile.openTable context "book" .start =
      .ok (⟨"book", book⟩, books) ⟨1, 0, some [], []⟩ := rfl
  .start opened

end Sample

/-- The last book is a sequel and has none: on its joined row, the condition is true. -/
theorem Compile.truth_condition_books : ∃ (accepted : Sql.Condition) (q : Progress) (e : Bound),
    condition Sample.context ⟨"book", .table Sample.books⟩ Sample.filter ⟨1, 0, some [], []⟩ =
      .ok accepted q ∧
    e ∈ Sql.joinAll Sample.engine Sample.database (q.joins.map (·.join))
      (Bound.empty.bind (some (tableAlias 1)) (Sample.row 2 "Looking-Glass" .null)) ∧
    accepted.truth Sample.engine Sample.database e = .true := by
  obtain ⟨r, sound⟩ := Sample.visited.sound Sample.honours
  obtain rfl : r = ⟨"book", Sample.book⟩ := Sample.findResource_eq sound.named
  have kept := keeps_condition Sample.honours sound (FitsFields.any _ _) Sample.filter
  cases run : condition Sample.context ⟨"book", .table Sample.books⟩ Sample.filter
      ⟨1, 0, some [], []⟩ with
  | error e q =>
    rw [run] at kept
    obtain ⟨-, -, refused⟩ := kept
    have checked : Sample.context.metadata.checkFilter ⟨"book", Sample.book⟩ Sample.filter = .ok () :=
      rfl
    rw [checked] at refused
    cases refused
  | ok accepted q =>
    rw [run] at kept
    have stored : Sample.row 2 "Looking-Glass" .null ∈ Sample.database.rowsOf ⟨"book", Sample.book⟩ :=
      List.mem_cons_of_mem _ (List.mem_cons_self ..)
    have shows : Resource.Shows ⟨"book", Sample.book⟩
        ((Bound.empty.bind (some (tableAlias 1)) (Sample.row 2 "Looking-Glass" .null))
          (some (tableAlias 1))) (Sample.row 2 "Looking-Glass" .null) := by
      rw [Bound.bind_self]
      exact .refl _ _
    obtain ⟨e, joined⟩ := List.exists_mem_of_ne_nil _
      (kept.1.linked.joinAll_ne_nil Sample.honours sound.named stored shows)
    refine ⟨accepted, q, e, rfl, joined, ?_⟩
    rw [truth_condition Sample.honours Sample.visited sound.named run stored shows joined]
    rfl

end ResourceSql
