/-
What compiled selects read. While a select is compiled, the aliases of its scope
stand for the root and for the tables that were joined (`scopeOf`); a place to
which a path leads offers all columns that are held for its resources. From that
every column of a query is found (`Compile.finds_rows`, `Compile.finds_rowCount`).
-/
import ResourceSql.Proofs.Numbering
import ResourceSql.Proofs.Offers
import ResourceSql.Proofs.Paging

namespace ResourceSql

open Sql

/-! ## Scopes of compilations -/

/-- What the root and the joined tables stand for. -/
def scopeOf (source : String × Standing) (joins : List PathJoin) : Scope :=
  source :: joins.filterMap fun j => j.aliasName.map fun a => (a, .table j.resource)

/-- The root is addressed through the alias, and the columns that its resources hold are offered. -/
structure StandsFor (m : Metadata) (root : Occurrence) (r : Resource) (source : String × Standing) :
    Prop where
  named : root.aliasName = some source.1
  offers : ∀ column, r.Holds column → source.2.Offers m column

theorem StandsFor.table {m : Metadata} {r : Resource} (found : m.findResource r.name = .ok r)
    (a : String) : StandsFor m (r.root (r.table (some a))) r (a, .table r.name) :=
  ⟨rfl, fun _ held => ⟨r, found, .inl held⟩⟩

/-- A step of a compilation in a scope. -/
structure Extends (c : Context) (root : Occurrence) (r : Resource) (p q : Progress) : Prop where
  sound : Sound c root r q
  later : Later Compile.AnyFits p q

section

variable {c : Context} {root : Occurrence} {r : Resource} {p q s : Progress}
  {source : String × Standing}

namespace Extends

theorem refl (sound : Sound c root r p) : Extends c root r p p := ⟨sound, .refl _ p⟩

theorem trans (h : Extends c root r p q) (h' : Extends c root r q s) : Extends c root r p s :=
  ⟨h'.sound, h.later.trans h'.later⟩

end Extends

/-- A scope that was opened inside another one is closed again. -/
theorem Extends.outside {inside : Occurrence} {target : Resource} (sound : Sound c root r p)
    (h : Extends c inside target { p with joins := [] } q) :
    Extends c root r p { q with joins := p.joins } := by
  refine ⟨⟨sound.named, h.sound.remembers, sound.linked.mono h.later.tables⟩, ?_⟩
  exact .of_joins_eq h.later.tables rfl

theorem Keeps.extends {α β : Type} {expected : Except RequestError β}
    {good : β → α → Progress → Prop} {result : EStateM.Result RequestError Progress α} {a : α}
    (kept : Keeps c root r Compile.AnyFits p expected good result) (run : result = .ok a q) :
    Extends c root r p q := by
  obtain ⟨sound, later, -⟩ := kept.of_ok run
  exact ⟨sound, later⟩

/-- What is in the scope stays there. -/
theorem Later.scope_subset {fits : List String → Bool → Prop} (later : Later fits p q) :
    scopeOf source p.joins ⊆ scopeOf source q.joins := by
  intro entry member
  rcases List.mem_cons.1 member with rfl | member
  · exact List.mem_cons_self ..
  · obtain ⟨j, joined, named⟩ := List.mem_filterMap.1 member
    obtain ⟨i, kept, same⟩ := later.kept j joined
    refine List.mem_cons_of_mem _ (List.mem_filterMap.2 ⟨i, kept, ?_⟩)
    rw [PathJoin.aliasName, PathJoin.join_eq same, PathJoin.resource_eq same]
    exact named

/-- The columns that are held for the resources of a place are found there. -/
theorem LeadsTo.found {n : Nat} {joins : List PathJoin} {walked : List String} {here : Occurrence}
    {b : Bool} {type : Resource} {column : String} (place : LeadsTo root joins walked here b)
    (linked : Linked c.metadata root n joins) (stands : StandsFor c.metadata root r source)
    (named : c.metadata.findResource root.resource = .ok r)
    (found : c.metadata.findResource here.resource = .ok type) (held : type.Holds column)
    (role : ColumnRole) : (here.column column role).FoundIn c.metadata (scopeOf source joins) := by
  cases place with
  | root =>
    obtain rfl := Except.ok.inj (named.symm.trans found)
    refine ⟨source.1, source.2, ?_, List.mem_cons_self .., ?_⟩
    · rw [Occurrence.aliasName_column, stands.named]
    · rw [Occurrence.name_column]
      exact stands.offers column held
  | @join j joined =>
    obtain ⟨_, -, -, numbered⟩ := linked.numbered
    obtain ⟨i, aliased, -⟩ := numbered j joined
    refine ⟨tableAlias i, .table j.resource, ?_, ?_, ?_⟩
    · rw [Occurrence.aliasName_column]
      exact aliased
    · refine List.mem_cons_of_mem _ (List.mem_filterMap.2 ⟨j, joined, ?_⟩)
      rw [aliased]
      rfl
    · rw [Occurrence.name_column]
      exact ⟨type, found, .inl held⟩

/-- The joins of a scope are joined one after the other. -/
theorem Linked.joined {n : Nat} {joins : List PathJoin} (linked : Linked c.metadata root n joins)
    (stands : StandsFor c.metadata root r source)
    (named : c.metadata.findResource root.resource = .ok r) :
    Joined c.metadata source (joins.map (·.join)) (scopeOf source joins) := by
  induction linked with
  | nil => exact .nil
  | @snoc n joins walked here b parent relationship l number _ included linked place found declared
      _ _ _ ih =>
    have scope : scopeOf source (joins ++ [⟨walked ++ [relationship], l.target.name,
        l.join here b number, included⟩]) =
        scopeOf source joins ++ [(tableAlias number, .table l.target.name)] := by
      simp [scopeOf, PathJoin.aliasName, Link.join, Link.table, Resource.table]
    rw [scope, List.map_append]
    refine .snoc ih declared.target_found rfl ?_ ?_
    · exact place.found linked stands named found declared.holds_outer _
    · refine ⟨tableAlias number, .table l.target.name, rfl, List.mem_singleton_self _, ?_⟩
      exact ⟨l.target, declared.target_found, declared.stores_inner⟩

/-! ## Fields and related resources -/

namespace Compile

theorem extends_walkPath {walk : Walk} {path : List String} {here : Occurrence}
    (sound : Sound c root r p) (run : walkPath c walk root path p = .ok here q) :
    Extends c root r p q ∧ ∃ type b, c.metadata.findResource here.resource = .ok type ∧
      LeadsTo root q.joins path here b := by
  have kept : Keeps c root r AnyFits p _ _ (walkPath c walk root path p) :=
    keeps_walkPath sound fun _ _ _ _ => trivial
  obtain ⟨sound, later, type, -, named, b, place⟩ := kept.of_ok run
  exact ⟨⟨sound, later⟩, type, b, named, place⟩

theorem extends_foreignKey {declaring : Resource} {relationship : String} {key : ForeignKey}
    (sound : Sound c root r p) (found : c.metadata.findResource declaring.name = .ok declaring)
    (run : foreignKey c.metadata declaring relationship p = .ok key q) :
    Extends c root r p q ∧ ForeignKey.resolve c.metadata declaring relationship = .ok key := by
  have kept : Keeps c root r AnyFits p _ _ _ := keeps_foreignKey sound found relationship
  obtain ⟨sound, later, resolved, same, rfl, -⟩ := kept.of_ok run
  exact ⟨⟨sound, later⟩, same⟩

theorem extends_freshAlias {a : String} (sound : Sound c root r p)
    (run : freshAlias p = .ok a q) :
    Extends c root r p q ∧ a = tableAlias (p.tables + 1) ∧ q.tables = p.tables + 1 := by
  have kept : Keeps c root r AnyFits p _ _ _ := keeps_freshAlias sound
  obtain ⟨sound, later, -, -, rfl, rfl⟩ := kept.of_ok run
  exact ⟨⟨sound, later⟩, rfl, rfl⟩

theorem extends_bindValue {value : Value} {parameter : Parameter} (sound : Sound c root r p)
    (run : bindValue value p = .ok parameter q) : Extends c root r p q :=
  Keeps.extends (keeps_bindValue sound value) run

theorem finds_field {path : List String} {column : Column} {held : Attribute}
    (sound : Sound c root r p) (stands : StandsFor c.metadata root r source)
    (run : field c root path p = .ok (column, held) q) :
    Extends c root r p q ∧ column.FoundIn c.metadata (scopeOf source q.joins) := by
  obtain ⟨here, p₁, resource, name, walked, named, rest⟩ := field_run run
  obtain ⟨extended, type, b, found, place⟩ := extends_walkPath sound walked
  rcases rest with ⟨looked, rfl, rfl⟩ | ⟨related, target, walked, found, identified, rfl⟩
  · refine ⟨extended, place.found extended.sound.linked stands sound.named named ?_ _⟩
    exact .inl ⟨name, held, looked, rfl⟩
  · obtain ⟨further, type, b, -, place⟩ := extends_walkPath extended.sound walked
    refine ⟨extended.trans further,
      place.found further.sound.linked stands sound.named found ?_ _⟩
    exact Resource.holds_of_primaryKey identified

/-- A table of related resources is opened in a scope. -/
structure OpensIn (m : Metadata) (outer : Scope) (opened : Related) (target : Resource)
    (a : String) : Prop where
  found : m.findResource target.name = .ok target
  resource : opened.resource = target.name
  table : opened.table = target.table (some a)
  link : opened.link.Finds m ((a, .table target.name) :: outer)

namespace OpensIn

variable {m : Metadata} {outer : Scope} {opened : Related} {target : Resource} {a : String}

theorem root_eq (h : OpensIn m outer opened target a) :
    opened.root = target.root (target.table (some a)) := by
  rw [Related.root, h.resource, h.table, Resource.root]

theorem stands (h : OpensIn m outer opened target a) :
    StandsFor m opened.root target (a, .table target.name) := by
  rw [h.root_eq]
  exact .table h.found a

/-- A select over related resources finds its columns if its own conditions do. -/
theorem select (h : OpensIn c.metadata outer opened target a)
    (inside : Sound c opened.root target p) (projection : Projection)
    (projected : projection.FoundIn c.metadata []) (conditions : List Condition)
    (each : ∀ x ∈ conditions, x.Finds c.metadata (scopeOf (a, .table target.name) p.joins)) :
    (opened.select projection p.joins conditions).Finds c.metadata outer target := by
  have joined := inside.linked.joined h.stands inside.named
  refine ⟨(a, .table target.name), scopeOf (a, .table target.name) p.joins, ?_, joined, ?_, ?_,
    trivial⟩
  · exact ⟨a, h.table, rfl⟩
  · exact projected.mono (List.nil_subset _)
  · refine filterFinds_conjunction? (List.forall_mem_cons.2 ⟨?_, fun x member => ?_⟩)
    · refine h.link.mono ?_ _
      exact List.cons_subset_cons _ (List.subset_append_right _ _)
    · exact (each x member).mono (List.subset_append_left _ _)

end OpensIn

theorem opens_related {path : List String} {opened : Related} (sound : Sound c root r p)
    (stands : StandsFor c.metadata root r source)
    (run : related c root path p = .ok opened q) :
    Extends c root r p q ∧ ∃ target a,
      OpensIn c.metadata (scopeOf source q.joins) opened target a ∧
      Sound c opened.root target { q with joins := [] } := by
  obtain ⟨here, p₁, parent, relationship, key, p₂, target, a, outer, inner, walked, found, looked,
    named, fresh, columns, rfl⟩ := related_run run
  obtain ⟨extended, type, b, found', place⟩ := extends_walkPath sound walked
  obtain ⟨further, resolved⟩ :=
    extends_foreignKey extended.sound (Metadata.findResource_self found) looked
  obtain ⟨aliased, rfl, tables⟩ := extends_freshAlias further.sound fresh
  rw [Metadata.joinColumns_eq named] at columns
  cases linked : c.metadata.link parent key with
  | error e =>
    rw [linked] at columns
    cases columns
  | ok l =>
    rw [linked] at columns
    cases columns
    have declared := Metadata.declares_of_link (Metadata.findResource_self found) resolved linked
    obtain rfl := Metadata.target_of_link named linked
    have place := place.later (further.trans aliased).later
    have outer := place.found aliased.sound.linked stands sound.named found declared.holds_outer
      l.outerRole
    have inner : (Column.ofTable ((l.table (p₂.tables + 1)).column l.inner l.innerRole)).FoundIn
        c.metadata [(tableAlias (p₂.tables + 1), .table l.target.name)] :=
      ⟨_, _, rfl, List.mem_singleton_self _, l.target, declared.target_found, declared.stores_inner⟩
    refine ⟨(extended.trans further).trans aliased, l.target, tableAlias (p₂.tables + 1), ?_, ?_⟩
    · refine ⟨declared.target_found, rfl, rfl, ?_, ?_⟩
      · exact outer.mono (List.subset_cons_self _ _)
      · exact inner.mono (List.cons_subset_cons _ (List.nil_subset _))
    · exact ⟨declared.target_found, aliased.sound.remembers, .nil rfl (Nat.le_of_eq tables.symm)⟩

/-! ## Conditions -/

theorem finds_count {path : List String} {select : Select} (sound : Sound c root r p)
    (stands : StandsFor c.metadata root r source) (run : count c root path p = .ok select q) :
    Extends c root r p q ∧ ∃ target, c.metadata.findResource target.name = .ok target ∧
      select.Finds c.metadata (scopeOf source q.joins) target := by
  obtain ⟨opened, first, rfl⟩ := count_run run
  obtain ⟨extended, target, a, opens, inside⟩ := opens_related sound stands first
  refine ⟨extended, target, opens.found, ?_⟩
  exact opens.select inside .count trivial [] (by simp)

/-- The columns of a side of a comparison. -/
def sideFinds (m : Metadata) (σ : Scope) : Side → Prop
  | .column column _ => column.FoundIn m σ
  | .count select => ∃ target, m.findResource target.name = .ok target ∧ select.Finds m σ target
  | .value _ | .null => True

theorem finds_side {operand : Request.Operand} {side' : Side} (sound : Sound c root r p)
    (stands : StandsFor c.metadata root r source) (run : side c root operand p = .ok side' q) :
    Extends c root r p q ∧ sideFinds c.metadata (scopeOf source q.joins) side' := by
  rcases side_run run with ⟨path, column, held, found, rfl⟩ | ⟨path, select, counted, rfl⟩ |
    ⟨plain, rfl⟩
  · exact finds_field sound stands found
  · exact finds_count sound stands counted
  · rcases plain with rfl | ⟨v, rfl⟩
    · exact ⟨.refl sound, trivial⟩
    · exact ⟨.refl sound, trivial⟩

theorem finds_bindSide {typing : Option Attribute} {side' : Side} {operand : Operand} {σ : Scope}
    (sound : Sound c root r p) (found : sideFinds c.metadata σ side')
    (run : bindSide c typing side' p = .ok operand q) :
    Extends c root r p q ∧ operand.Finds c.metadata σ := by
  rcases bindSide_run run with ⟨column, held, rfl, rfl, rfl⟩ | ⟨select, rfl, rfl, rfl⟩ |
    ⟨rfl, rfl, rfl⟩ | ⟨v, value, parameter, rfl, -, bound, rfl⟩
  · exact ⟨.refl sound, found⟩
  · exact ⟨.refl sound, found⟩
  · exact ⟨.refl sound, trivial⟩
  · exact ⟨extends_bindValue sound bound, trivial⟩

theorem finds_comparison {operator : Comparison} {left right : Request.Operand} {made : Condition}
    (sound : Sound c root r p) (stands : StandsFor c.metadata root r source)
    (run : comparison c root operator left right p = .ok made q) :
    Extends c root r p q ∧ made.Finds c.metadata (scopeOf source q.joins) := by
  obtain ⟨a, p₁, b, p₂, typing, x, p₃, y, first, second, -, bound, bound', rfl⟩ :=
    comparison_run run
  obtain ⟨extended, found⟩ := finds_side sound stands first
  obtain ⟨further, found'⟩ := finds_side extended.sound stands second
  obtain ⟨bound, left⟩ := finds_bindSide further.sound found bound
  obtain ⟨bound', right⟩ := finds_bindSide bound.sound found' bound'
  have later := (further.trans bound).trans bound'
  refine ⟨extended.trans later, ?_, ?_⟩
  · exact left.mono later.later.scope_subset _
  · exact right.mono (bound.trans bound').later.scope_subset _

theorem finds_textMatch {place : TextMatch} {path : List String} {text : String} {made : Condition}
    (sound : Sound c root r p) (stands : StandsFor c.metadata root r source)
    (run : textMatch c root place path text p = .ok made q) :
    Extends c root r p q ∧ made.Finds c.metadata (scopeOf source q.joins) := by
  obtain ⟨column, held, p₁, parameter, found, -, bound, rfl⟩ := textMatch_run run
  obtain ⟨extended, found⟩ := finds_field sound stands found
  have further := extends_bindValue extended.sound bound
  exact ⟨extended.trans further, found.mono further.later.scope_subset⟩

/-- What is made of each element finds its columns, also when tables are joined later on. -/
theorem finds_forEach {α β : Type} {step : α → Compile β} {good : Scope → β → Prop}
    {given : List α} {made : List β} (sound : Sound c root r p)
    (grows : ∀ {σ τ b}, σ ⊆ τ → good σ b → good τ b)
    (each : ∀ {a b p q}, Sound c root r p → step a p = .ok b q →
      Extends c root r p q ∧ good (scopeOf source q.joins) b)
    (run : forEach step given p = .ok made q) :
    Extends c root r p q ∧ ∀ b ∈ made, good (scopeOf source q.joins) b := by
  induction given generalizing made p with
  | nil =>
    cases run
    exact ⟨.refl sound, by simp⟩
  | cons a given ih =>
    simp only [forEach, bind_eq_ok] at run
    obtain ⟨b, p₁, first, rest, p₂, others, run⟩ := run
    cases run
    obtain ⟨extended, found⟩ := each sound first
    obtain ⟨further, founds⟩ := ih extended.sound others
    refine ⟨extended.trans further, List.forall_mem_cons.2 ⟨?_, founds⟩⟩
    exact grows further.later.scope_subset found

theorem finds_anyOf {path : List String} {values : List Json} {made : Condition}
    (sound : Sound c root r p) (stands : StandsFor c.metadata root r source)
    (run : anyOf c root path values p = .ok made q) :
    Extends c root r p q ∧ made.Finds c.metadata (scopeOf source q.joins) := by
  obtain ⟨column, held, p₁, operands, -, found, bound, rfl⟩ := anyOf_run run
  obtain ⟨extended, found⟩ := finds_field sound stands found
  obtain ⟨further, each⟩ : Extends c root r p₁ q ∧
      ∀ o ∈ operands, o.Finds c.metadata (scopeOf source q.joins) := by
    refine finds_forEach extended.sound (fun sub found => found.mono sub _) (fun sound run => ?_) bound
    simp only [bind_eq_ok, ofExcept_eq_ok] at run
    obtain ⟨value, _, ⟨-, rfl⟩, parameter, p₁, bound, run⟩ := run
    cases run
    exact ⟨extends_bindValue sound bound, trivial⟩
  refine ⟨extended.trans further, found.mono further.later.scope_subset, ?_⟩
  exact operandsFind_iff.2 each

theorem finds_joined {connective : Connective} {conditions : List Condition} {made : Condition}
    {σ : Scope} (each : ∀ x ∈ conditions, x.Finds c.metadata σ)
    (run : joined connective conditions p = .ok made q) : made.Finds c.metadata σ ∧ q = p := by
  obtain ⟨combined, rfl⟩ := joined_run run
  have all := (forall_combine (P := fun x => x.Finds c.metadata σ) (finds_logical connective)
    conditions).2 each
  exact ⟨all made (by simp [combined]), rfl⟩

mutual

theorem finds_condition {root : Occurrence} {r : Resource} {source : String × Standing}
    {p q : Progress} {made : Condition} (sound : Sound c root r p)
    (stands : StandsFor c.metadata root r source) : (filter : Request.Filter) →
    condition c root filter p = .ok made q →
    Extends c root r p q ∧ made.Finds c.metadata (scopeOf source q.joins)
  | .and terms, run => by
    simp only [condition, bind_eq_ok] at run
    obtain ⟨conditions, p₁, each, run⟩ := run
    obtain ⟨extended, each⟩ := finds_conditions sound stands terms each
    obtain ⟨found, rfl⟩ := finds_joined each run
    exact ⟨extended, found⟩
  | .or terms, run => by
    simp only [condition, bind_eq_ok] at run
    obtain ⟨conditions, p₁, each, run⟩ := run
    obtain ⟨extended, each⟩ := finds_conditions sound stands terms each
    obtain ⟨found, rfl⟩ := finds_joined each run
    exact ⟨extended, found⟩
  | .not filter, run => by
    simp only [condition, bind_eq_ok] at run
    obtain ⟨child, p₁, first, run⟩ := run
    cases run
    obtain ⟨extended, found⟩ := finds_condition sound stands filter first
    exact ⟨extended, found⟩
  | .comparison operator left right, run => finds_comparison sound stands run
  | .textMatch place path text, run => finds_textMatch sound stands run
  | .any path values, run => finds_anyOf sound stands run
  | .has path filter, run => by
    simp only [condition, bind_eq_ok] at run
    obtain ⟨select, p₁, inside, run⟩ := run
    cases run
    exact finds_relatedSelect sound stands path filter inside

theorem finds_relatedSelect {root : Occurrence} {r : Resource} {source : String × Standing}
    {p q : Progress} {select : Select} (sound : Sound c root r p)
    (stands : StandsFor c.metadata root r source) (path : List String) :
    (filter : Option Request.Filter) → relatedSelect c root path .one filter p = .ok select q →
    Extends c root r p q ∧ ∃ target, c.metadata.findResource target.name = .ok target ∧
      select.Finds c.metadata (scopeOf source q.joins) target
  | none, run => by
    simp only [relatedSelect, bind_eq_ok] at run
    obtain ⟨opened, p₁, first, run⟩ := run
    cases run
    obtain ⟨extended, target, a, opens, inside⟩ := opens_related sound stands first
    refine ⟨extended, target, opens.found, ?_⟩
    exact opens.select inside .one trivial [] (by simp)
  | some filter, run => by
    simp only [relatedSelect, bind_eq_ok] at run
    obtain ⟨opened, p₁, first, ⟨inner, joins⟩, p₂, own, run⟩ := run
    obtain ⟨t, inside, rfl, rfl⟩ := inOwnScope_eq_ok.1 own
    cases run
    obtain ⟨extended, target, a, opens, start⟩ := opens_related sound stands first
    obtain ⟨within, found⟩ := finds_condition start opens.stands filter inside
    refine ⟨extended.trans (within.outside extended.sound), target, opens.found, ?_⟩
    exact opens.select within.sound .one trivial [inner] (by simpa using found)

theorem finds_conditions {root : Occurrence} {r : Resource} {source : String × Standing}
    {p q : Progress} {made : List Condition} (sound : Sound c root r p)
    (stands : StandsFor c.metadata root r source) : (filters : List Request.Filter) →
    conditions c root filters p = .ok made q →
    Extends c root r p q ∧ ∀ x ∈ made, x.Finds c.metadata (scopeOf source q.joins)
  | [], run => by
    cases run
    exact ⟨.refl sound, by simp⟩
  | filter :: filters, run => by
    simp only [conditions, bind_eq_ok] at run
    obtain ⟨first, p₁, head, rest, p₂, tail, run⟩ := run
    cases run
    obtain ⟨extended, found⟩ := finds_condition sound stands filter head
    obtain ⟨further, founds⟩ := finds_conditions extended.sound stands filters tail
    refine ⟨extended.trans further, List.forall_mem_cons.2 ⟨?_, founds⟩⟩
    exact found.mono further.later.scope_subset _

end

/-! ## Queries -/

theorem extends_bindId {resource : Resource} {id : Json} {parameter : Parameter}
    (sound : Sound c root r p) (run : bindId c resource id p = .ok parameter q) :
    Extends c root r p q := by
  obtain ⟨value, bound⟩ := bindId_run run
  exact extends_bindValue sound bound

theorem finds_identity {id : Json} {made : Condition} (sound : Sound c root r p)
    (stands : StandsFor c.metadata root r source) (run : identity c root r id p = .ok made q) :
    Extends c root r p q ∧ made.Finds c.metadata (scopeOf source q.joins) := by
  obtain ⟨primaryKey, parameter, identified, bound, rfl⟩ := identity_run run
  have extended := extends_bindId sound bound
  refine ⟨extended, ?_, trivial⟩
  exact LeadsTo.root.found extended.sound.linked stands sound.named sound.named
    (Resource.holds_of_primaryKey identified) _

theorem finds_optionally {α : Type} {step : α → Compile Condition} {given : Option α}
    {made : List Condition} (sound : Sound c root r p)
    (each : ∀ {a b}, step a p = .ok b q →
      Extends c root r p q ∧ b.Finds c.metadata (scopeOf source q.joins))
    (run : optionally step given p = .ok made q) :
    Extends c root r p q ∧ ∀ x ∈ made, x.Finds c.metadata (scopeOf source q.joins) := by
  rcases optionally_run run with ⟨-, rfl, rfl⟩ | ⟨a, b, -, first, rfl⟩
  · exact ⟨.refl sound, by simp⟩
  · simpa using each first

theorem finds_requestCondition {id : Option Json} {filter : Option Request.Filter}
    {made : Option Condition} (sound : Sound c root r p)
    (stands : StandsFor c.metadata root r source)
    (run : requestCondition c root r id filter p = .ok made q) :
    Extends c root r p q ∧ filterFinds c.metadata (scopeOf source q.joins) made := by
  obtain ⟨identities, p₁, filters, first, second, rfl⟩ := requestCondition_run run
  obtain ⟨extended, each⟩ := finds_optionally sound (finds_identity sound stands) first
  obtain ⟨further, each'⟩ := finds_optionally extended.sound
    (finds_condition extended.sound stands _) second
  refine ⟨extended.trans further, filterFinds_conjunction? fun x member => ?_⟩
  rcases List.mem_append.1 member with member | member
  · exact (each x member).mono further.later.scope_subset _
  · exact each' x member

theorem finds_orderTerm {element : Request.SortElement} {term : OrderTerm}
    (sound : Sound c root r p) (stands : StandsFor c.metadata root r source)
    (run : orderTerm c root element p = .ok term q) :
    Extends c root r p q ∧ term.Finds c.metadata (scopeOf source q.joins) := by
  rcases orderTerm_run run with ⟨path, column, held, found, rfl⟩ | ⟨path, select, counted, rfl⟩
  · exact finds_field sound stands found
  · exact finds_count sound stands counted

theorem finds_order {sort : List Request.SortElement} {terms : List OrderTerm}
    (sound : Sound c root r p) (stands : StandsFor c.metadata root r source)
    (run : order c root sort p = .ok terms q) :
    Extends c root r p q ∧ orderFinds c.metadata (scopeOf source q.joins) (some terms) := by
  rcases order_run run with ⟨-, ⟨resource, primaryKey, named, identified, rfl⟩, rfl⟩ | ⟨-, run⟩
  · obtain rfl := Except.ok.inj (sound.named.symm.trans named)
    refine ⟨.refl sound, ?_, trivial⟩
    exact LeadsTo.root.found sound.linked stands sound.named sound.named
      (Resource.holds_of_primaryKey identified) _
  · obtain ⟨extended, each⟩ : Extends c root r p q ∧
        ∀ term ∈ terms, term.Finds c.metadata (scopeOf source q.joins) :=
      finds_forEach sound (fun sub found => found.mono sub _)
        (fun sound => finds_orderTerm sound stands) run
    exact ⟨extended, termsFind_iff.2 each⟩

theorem extends_includePaths {paths : List (List String)} {u : Unit} (sound : Sound c root r p)
    (run : includePaths c root paths p = .ok u q) : Extends c root r p q := by
  have kept : Keeps c root r AnyFits p _ _ _ :=
    keeps_includePaths paths sound fun _ _ _ _ _ _ => trivial
  exact kept.extends run

/-- All columns that are read of places are found. -/
theorem found_columnsOfAll {n : Nat} {joins : List PathJoin} {fields : NameMap (List String)}
    {places : List Occurrence} {columns : List Column} (linked : Linked c.metadata root n joins)
    (stands : StandsFor c.metadata root r source)
    (named : c.metadata.findResource root.resource = .ok r)
    (reached : ∀ here ∈ places, ∃ walked b, LeadsTo root joins walked here b)
    (h : columnsOfAll c fields places = .ok columns) :
    ∀ x ∈ columns, x.FoundIn c.metadata (scopeOf source joins) := by
  induction places generalizing columns with
  | nil =>
    cases h
    simp
  | cons here places ih =>
    obtain ⟨⟨walked, b, place⟩, reached⟩ := List.forall_mem_cons.1 reached
    obtain ⟨own, read, h⟩ := Except.bind_eq_ok.1 h
    obtain ⟨others, rest, h⟩ := Except.bind_eq_ok.1 h
    cases h
    obtain ⟨type, found, read⟩ := Except.bind_eq_ok.1 read
    obtain ⟨attributes, selected, read⟩ := Except.bind_eq_ok.1 read
    cases read
    intro x member
    rcases List.mem_append.1 member with member | member
    · obtain ⟨a, chosen, rfl⟩ := List.mem_map.1 member
      have held := Resource.holds_of_selected selected a chosen
      exact place.found linked stands named found held _
    · exact ih reached rest x member

theorem found_columnsRead {fields : NameMap (List String)} {columns : List Column}
    (sound : Sound c root r p) (stands : StandsFor c.metadata root r source)
    (h : columnsRead c fields root p.joins = .ok columns) :
    (Projection.columns columns).FoundIn c.metadata (scopeOf source p.joins) := by
  obtain ⟨_, -, h⟩ := Except.bind_eq_ok.1 h
  refine found_columnsOfAll sound.linked stands sound.named (fun here member => ?_) h
  rcases List.mem_cons.1 member with rfl | member
  · exact ⟨[], false, .root⟩
  · obtain ⟨j, included, rfl⟩ := List.mem_map.1 member
    exact ⟨j.path, _, .join (List.mem_filter.1 included).1⟩

/-- A select over a source finds its columns if its parts do. -/
theorem finds_over {opened : Source} {projection : Projection} {filter : Option Condition}
    {terms : Option (List OrderTerm)} {window : Window} (sound : Sound c root r p)
    (stands : StandsFor c.metadata root r source) (reads : opened.Finds c.metadata r source)
    (projected : projection.FoundIn c.metadata (scopeOf source p.joins))
    (filtered : filterFinds c.metadata (scopeOf source p.joins) filter)
    (ordered : orderFinds c.metadata (scopeOf source p.joins) terms) :
    (Select.mk projection opened (p.joins.map (·.join)) filter terms window none).Finds
      c.metadata [] r := by
  have joined := sound.linked.joined stands sound.named
  refine ⟨source, scopeOf source p.joins, reads, joined, ?_⟩
  rw [List.append_nil]
  exact ⟨projected, filtered, ordered⟩

section

variable {request : Request.Query} {a : String} {select : Select}

theorem finds_plainRows (sound : Sound c (r.root (r.table (some a))) r p)
    (run : plainRows c request r (r.table (some a)) p = .ok select q) :
    select.Finds c.metadata [] r := by
  obtain ⟨p₁, filter, p₂, terms, t, columns, includes, first, second, read, rfl, rfl⟩ :=
    plainRows_run run
  have stands := StandsFor.table sound.named a
  have included := extends_includePaths sound.inside includes
  obtain ⟨conditions, filtered⟩ := finds_requestCondition included.sound stands first
  obtain ⟨arranged, ordered⟩ := finds_order conditions.sound stands second
  refine finds_over arranged.sound stands ⟨a, rfl, rfl⟩ ?_ ?_ ordered
  · exact found_columnsRead arranged.sound stands read
  · exact filterFinds_mono arranged.later.scope_subset _ filtered

/-- A page selects just columns that are held for its resources. -/
theorem finds_page (sound : Sound c (r.root (r.table (some a))) r p)
    (run : page c request r (r.table (some a)) p = .ok select q) :
    select.Finds c.metadata [] r ∧ Extends c (r.root (r.table (some a))) r p q ∧
      ∃ columns, r.projectedColumns = .ok columns ∧
        select.projection = .columns (subqueryColumns (r.table (some a)) columns) := by
  obtain ⟨filter, p₁, terms, t, columns, first, second, projected, rfl, rfl⟩ := page_run run
  have stands := StandsFor.table sound.named a
  obtain ⟨conditions, filtered⟩ := finds_requestCondition sound.inside stands first
  obtain ⟨arranged, ordered⟩ := finds_order conditions.sound stands second
  refine ⟨finds_over arranged.sound stands ⟨a, rfl, rfl⟩ ?_ ?_ ordered,
    (conditions.trans arranged).outside sound, columns, projected, rfl⟩
  · intro x member
    obtain ⟨⟨name, role⟩, chosen, rfl⟩ := List.mem_map.1 member
    have held := Resource.holds_of_projected projected (name, role) chosen
    exact LeadsTo.root.found arranged.sound.linked stands sound.named sound.named held role
  · exact filterFinds_mono arranged.later.scope_subset _ filtered

theorem finds_pagedRows (sound : Sound c (r.root (r.table (some a))) r p)
    (run : pagedRows c request r (r.table (some a)) p = .ok select q) :
    select.Finds c.metadata [] r := by
  obtain ⟨inner, p₁, b, p₂, p₃, terms, t, columns, paged, fresh, includes, second, read, rfl, rfl⟩ :=
    pagedRows_run run
  obtain ⟨found, around, projected, projects, selected⟩ := finds_page sound paged
  obtain ⟨named, rfl, tables⟩ := extends_freshAlias around.sound fresh
  let names := (subqueryColumns (r.table (some a)) projected).map (·.name)
  let root : Occurrence := ⟨r.name, .subquery (r.table (some a)) (tableAlias (p₁.tables + 1))⟩
  have stands : StandsFor c.metadata root r (tableAlias (p₁.tables + 1), .subquery names) := by
    refine ⟨rfl, fun column held => ?_⟩
    obtain ⟨role, chosen⟩ := Resource.mem_projectedColumns projects held
    have given := List.mem_map_of_mem (f := fun x : String × ColumnRole =>
      Column.ofTable ((r.table (some a)).column x.1 x.2)) chosen
    exact List.mem_map_of_mem (f := Column.name) given
  have start : Sound c root r { p₂ with joins := [] } :=
    ⟨sound.named, named.sound.remembers, .nil rfl (Nat.le_of_eq tables.symm)⟩
  have included := extends_includePaths start includes
  obtain ⟨arranged, ordered⟩ := finds_order included.sound stands second
  refine finds_over arranged.sound stands ?_ ?_ trivial ordered
  · exact ⟨found.named _, _, _, rfl, selected, rfl⟩
  · exact found_columnsRead arranged.sound stands read

/-- The rows of a query are read in a scope of their root, at once or around a page. -/
theorem rows_in_scope (run : rows c request .start = .ok select q) :
    ∃ r a p, c.metadata.findResource request.resource = .ok r ∧
      Sound c (r.root (r.table (some a))) r p ∧
      (plainRows c request r (r.table (some a)) p = .ok select q ∨
        pagedRows c request r (r.table (some a)) p = .ok select q) := by
  obtain ⟨r, table, p₁, p₂, opened, looked, run⟩ := rows_run run
  have sound := Sound.start opened
  obtain ⟨a, found, -, rfl⟩ := openTable_run opened
  refine ⟨r, a, p₂, found, ?_, run.imp_right And.right⟩
  rcases looked with rfl | ⟨b, looked⟩
  · exact sound
  · have kept : Keeps c (r.root (r.table (some a))) r AnyFits _ _ _ _ :=
      keeps_anyLeadsToMany request.includes sound
    exact (kept.of_ok looked).1

theorem finds_rows (accepted : (rows c request).result = .ok select) :
    ∃ r, c.metadata.findResource request.resource = .ok r ∧ select.Finds c.metadata [] r := by
  obtain ⟨q, run⟩ := result_ok.1 accepted
  obtain ⟨r, a, p, found, sound, run⟩ := rows_in_scope run
  refine ⟨r, found, ?_⟩
  rcases run with run | run
  · exact finds_plainRows sound run
  · exact finds_pagedRows sound run

theorem finds_rowCount (accepted : (rowCount c request).result = .ok select) :
    ∃ r, c.metadata.findResource request.resource = .ok r ∧ select.Finds c.metadata [] r := by
  obtain ⟨q, run⟩ := result_ok.1 accepted
  obtain ⟨r, table, p₁, filter, t, opened, first, rfl, rfl⟩ := rowCount_run run
  have sound := Sound.start opened
  obtain ⟨a, found, -, rfl⟩ := openTable_run opened
  have stands := StandsFor.table sound.named a
  obtain ⟨conditions, filtered⟩ := finds_requestCondition sound.inside stands first
  exact ⟨r, found, finds_over conditions.sound stands ⟨a, rfl, rfl⟩ trivial filtered trivial⟩

theorem finds_query
    (accepted : (rows c request).result = .ok select ∨ (rowCount c request).result = .ok select) :
    ∃ r, c.metadata.findResource request.resource = .ok r ∧ select.Finds c.metadata [] r := by
  rcases accepted with accepted | accepted
  · exact finds_rows accepted
  · exact finds_rowCount accepted

end

/-- Aliases of a query are declared once, and every column is addressed through one that can be seen
where it stands. Nothing in a page refers to the select around it, and nothing there to what is in
the page. -/
theorem scoped_of_query {request : Request.Query} {select : Select}
    (accepted : (rows c request).result = .ok select ∨ (rowCount c request).result = .ok select) :
    select.aliases.Nodup ∧ select.isScoped [] = true ∧
      ∀ page, select.source = .select page →
        page.mentions ⊆ page.aliases ∧ ∀ a ∈ select.mentionsAround, a ∉ page.aliases := by
  have distinct := nodup_aliases accepted
  obtain ⟨r, -, found⟩ := finds_query accepted
  have sound := Select.isScoped_of_finds select found
  exact ⟨distinct, sound, fun page inside => Select.subquery_apart sound distinct inside⟩

/-- The first book and its prequels are read around a page, whose table has an alias of its own. -/
theorem scoped_of_query_books : ∃ select page, (rows Sample.context Sample.query).result = .ok select ∧
    select.source = .select page ∧ select.aliases.Nodup ∧ select.isScoped [] = true ∧
    page.mentions ⊆ page.aliases ∧ ∀ a ∈ select.mentionsAround, a ∉ page.aliases := by
  obtain ⟨select, page, accepted, inside⟩ : ∃ select page,
      (rows Sample.context Sample.query).result = .ok select ∧ select.source = .select page :=
    ⟨_, _, rfl, rfl⟩
  obtain ⟨distinct, sound, apart⟩ := scoped_of_query (.inl accepted)
  exact ⟨select, page, accepted, inside, distinct, sound, apart page inside⟩

/-- Every column that a query reads is one of the table or the subquery that its alias stands for:
a table stores it for its resources, and a subquery selects it. -/
theorem columns_of_query {request : Request.Query} {select : Select}
    (accepted : (rows c request).result = .ok select ∨ (rowCount c request).result = .ok select) :
    ∃ r, c.metadata.findResource request.resource = .ok r ∧ select.aliases.Nodup ∧
      select.Finds c.metadata [] r := by
  obtain ⟨r, named, found⟩ := finds_query accepted
  exact ⟨r, named, nodup_aliases accepted, found⟩

theorem columns_of_query_books : ∃ select, (rows Sample.context Sample.query).result = .ok select ∧
    select.aliases.Nodup ∧ select.Finds Sample.context.metadata [] ⟨"book", Sample.book⟩ := by
  obtain ⟨select, accepted⟩ : ∃ select, (rows Sample.context Sample.query).result = .ok select :=
    ⟨_, rfl⟩
  obtain ⟨r, found, distinct, finds⟩ := columns_of_query (.inl accepted)
  obtain rfl := Sample.findResource_eq found
  exact ⟨select, accepted, distinct, finds⟩

end Compile

end

end ResourceSql
