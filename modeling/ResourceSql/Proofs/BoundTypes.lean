/-
The types of the values that queries bind. While a select is compiled, the tables
of its scope say which columns there are (`tablesIn`). A field is described by the
attribute that it was found as (`described_field`), and what it is compared with is
read as a value of that attribute (`typed_comparison`); so are the values of whole
conditions, by induction on the filter (`typed_condition`).
-/
import ResourceSql.Proofs.Reads
import ResourceSql.Proofs.ValueTypes
import ResourceSql.Proofs.Writes

namespace ResourceSql

/-! ## Tables of a scope -/

/-- The table whose rows an occurrence stands for. -/
def Occurrence.table (o : Occurrence) : Sql.Table :=
  match o.address with
  | .table t => t
  | .subquery t _ => t

theorem Occurrence.stored_column (o : Occurrence) (name : String) (role : Sql.ColumnRole) :
    (o.column name role).stored = o.table.column name role := by
  obtain ⟨_, _ | _⟩ := o <;> rfl

/-- The table of the root, and those that were joined. -/
def tablesIn (root : Occurrence) (joins : List PathJoin) : List Sql.Table :=
  root.table :: joins.map (·.join.table)

section

variable {c : Context} {r : Resource} {a : String} {p q : Progress}

theorem Later.tables_subset {fits : List String → Bool → Prop} {root : Occurrence}
    (later : Later fits p q) : tablesIn root p.joins ⊆ tablesIn root q.joins := by
  refine List.cons_subset_cons _ fun t member => ?_
  obtain ⟨j, joined, rfl⟩ := List.mem_map.1 member
  obtain ⟨i, kept, same⟩ := later.kept j joined
  rw [← PathJoin.join_eq same]
  exact List.mem_map_of_mem (f := fun j : PathJoin => j.join.table) kept

/-- The table at the end of a path is one of those of the scope. -/
theorem LeadsTo.table_mem {n : Nat} {joins : List PathJoin} {walked : List String}
    {here : Occurrence} {b : Bool} {type : Resource}
    (place : LeadsTo (r.root (r.table (some a))) joins walked here b)
    (linked : Linked c.metadata (r.root (r.table (some a))) n joins)
    (named : c.metadata.findResource r.name = .ok r)
    (found : c.metadata.findResource here.resource = .ok type) :
    type.table here.table.aliasName ∈ tablesIn (r.root (r.table (some a))) joins := by
  cases place with
  | root =>
    obtain rfl := Except.ok.inj (named.symm.trans found)
    exact List.mem_cons_self ..
  | @join j joined =>
    obtain ⟨_, _, _, _, _, l, number, -, -, declared, -, resource, join⟩ := linked.chained.followed j joined
    have target : type = l.target := by
      have found : c.metadata.findResource j.resource = .ok type := found
      rw [resource] at found
      exact Except.ok.inj (found.symm.trans declared.target_found)
    refine List.mem_cons_of_mem _ (List.mem_map.2 ⟨j, joined, ?_⟩)
    show j.join.table = type.table j.join.table.aliasName
    rw [join, target]
    rfl

namespace Compile

open Sql

theorem described_attribute {here : Occurrence} {tables : List Table} {type : Resource}
    {name : String} {held : Attribute} (stored : type.table here.table.aliasName ∈ tables)
    (found : c.metadata.findResource type.name = .ok type)
    (looked : type.type.attributes.get? name = some held) :
    c.metadata.Describes tables (here.column held.column .scalar).stored held := by
  rw [Occurrence.stored_column]
  exact ⟨type, found, stored, rfl, name, looked⟩

/-- A field is described by the attribute that it was found as. -/
theorem described_field {path : List String} {column : Column} {held : Attribute}
    (sound : Sound c (r.root (r.table (some a))) r p)
    (run : field c (r.root (r.table (some a))) path p = .ok (column, held) q) :
    Extends c (r.root (r.table (some a))) r p q ∧
      c.metadata.Describes (tablesIn (r.root (r.table (some a))) q.joins) column.stored held := by
  obtain ⟨here, p₁, resource, name, walked, named, rest⟩ := field_run run
  obtain ⟨extended, type, b, found, place⟩ := extends_walkPath sound walked
  rcases rest with ⟨looked, rfl, rfl⟩ | ⟨related, target, walked, found, identified, rfl⟩
  · refine ⟨extended, described_attribute ?_ (Metadata.findResource_self named) looked⟩
    exact place.table_mem extended.sound.linked sound.named named
  · obtain ⟨further, type, b, -, place⟩ := extends_walkPath extended.sound walked
    refine ⟨extended.trans further, described_attribute ?_ (Metadata.findResource_self found)
      (Resource.attribute_of_primaryKey identified)⟩
    exact place.table_mem further.sound.linked sound.named found

/-! ## Comparisons -/

/-- What is known of a side whose columns are described in tables. -/
def SideKnown (m : Metadata) (tables : List Table) : Side → Prop
  | .column column held => m.Describes tables column.stored held
  | .count select => select.uses = []
  | .value v => v.isNull = false
  | .null => True

theorem SideKnown.mono {m : Metadata} {tables others : List Table} {s : Side}
    (h : SideKnown m tables s) (sub : tables ⊆ others) : SideKnown m others s := by
  cases s with
  | column column held => exact Metadata.Describes.mono h sub
  | _ => exact h

/-- A side of a comparison that gives the values on the other side their type. -/
def Tells (typing : Option Attribute) : Side → Prop
  | .column _ held => typing = some held
  | .count _ => typing = none
  | .value _ | .null => False

theorem tells_of_typing {left right : Side} {typing : Option Attribute}
    (typed : Known.typing left.known right.known = .ok typing) :
    (∀ v, left = .value v → Tells typing right) ∧ ∀ v, right = .value v → Tells typing left := by
  constructor
  · rintro v rfl
    cases right with
    | column | count =>
      cases typed
      rfl
    | _ => cases typed
  · rintro v rfl
    cases left with
    | column | count =>
      cases typed
      rfl
    | _ => cases typed

/-- The link of a select over related resources holds no placeholder, and reads no further table. -/
theorem related_link {root : Occurrence} {path : List String} {opened : Related}
    (run : related c root path p = .ok opened q) :
    opened.link.uses = [] ∧ opened.link.tables = [] := by
  obtain ⟨_, _, _, _, _, _, _, _, _, _, -, -, -, -, -, -, rfl⟩ := related_run run
  exact ⟨rfl, rfl⟩

theorem uses_relatedSelect {opened : Related} (linked : opened.link.uses = [])
    (projection : Projection) (joins : List PathJoin) (conditions : List Condition) :
    (opened.select projection joins conditions).uses = conditions.flatMap Condition.uses := by
  rw [Related.select, Select.simple, Select.uses, Source.uses, orderUses, uses_conjunction?,
    List.flatMap_cons, linked, List.append_nil]
  rfl

theorem tables_relatedSelect {opened : Related} (linked : opened.link.tables = [])
    (projection : Projection) (joins : List PathJoin) (conditions : List Condition) :
    (opened.select projection joins conditions).tables =
      tablesIn opened.root joins ++ conditions.flatMap Condition.tables := by
  rw [Related.select, Select.simple, Select.tables, Source.tables, orderTables, tables_conjunction?,
    List.flatMap_cons, linked, List.append_nil, List.map_map]
  rfl

theorem uses_count {root : Occurrence} {path : List String} {select : Select}
    (run : count c root path p = .ok select q) : select.uses = [] := by
  obtain ⟨opened, first, rfl⟩ := count_run run
  exact uses_relatedSelect (related_link first).1 .count [] []

theorem typed_side {operand : Request.Operand} {s : Side}
    (sound : Sound c (r.root (r.table (some a))) r p)
    (run : side c (r.root (r.table (some a))) operand p = .ok s q) :
    Extends c (r.root (r.table (some a))) r p q ∧
      SideKnown c.metadata (tablesIn (r.root (r.table (some a))) q.joins) s := by
  cases operand with
  | field path =>
    simp only [side, bind_eq_ok] at run
    obtain ⟨⟨column, held⟩, p₁, found, run⟩ := run
    cases run
    exact described_field sound found
  | count path =>
    simp only [side, bind_eq_ok] at run
    obtain ⟨select, p₁, counted, run⟩ := run
    cases run
    exact ⟨(finds_count sound (.table sound.named a) counted).1, uses_count counted⟩
  | null =>
    cases run
    exact ⟨.refl sound, trivial⟩
  | value v =>
    cases v with
    | null =>
      cases run
      exact ⟨.refl sound, trivial⟩
    | _ =>
      cases run
      exact ⟨.refl sound, rfl⟩

theorem extends_bindSide {root : Occurrence} {typing : Option Attribute} {s : Side}
    {operand : Operand} (sound : Sound c root r p) (run : bindSide c typing s p = .ok operand q) :
    Extends c root r p q := by
  rcases bindSide_run run with ⟨_, _, _, _, rfl⟩ | ⟨_, _, _, rfl⟩ | ⟨_, _, rfl⟩ |
    ⟨_, _, _, _, _, bound, _⟩
  · exact .refl sound
  · exact .refl sound
  · exact .refl sound
  · exact extends_bindValue sound bound

/-- A value is bound as one of the type that the other side tells. -/
theorem typed_bindSide {tables : List Table} {typing : Option Attribute} {s other : Side}
    {operand operand' : Operand} {p' q' : Progress} (known : SideKnown c.metadata tables s)
    (known' : SideKnown c.metadata tables other) (told : ∀ v, s = .value v → Tells typing other)
    (run : bindSide c typing s p = .ok operand q)
    (run' : bindSide c typing other p' = .ok operand' q') :
    ∀ use ∈ operand.uses operand'.role, use.Typed c.metadata tables := by
  cases s with
  | column column held =>
    cases run
    simp [Operand.uses]
  | count select =>
    cases run
    have none : select.uses = [] := known
    simp [Operand.uses, none]
  | null =>
    cases run
    simp [Operand.uses]
  | value v =>
    simp only [bindSide, bind_eq_ok, ofExcept_eq_ok] at run
    obtain ⟨value, _, ⟨read, rfl⟩, parameter, p₁, bound, run⟩ := run
    cases bound
    cases run
    rw [Operand.uses, List.forall_mem_singleton]
    have told := told v rfl
    cases other with
    | column column held =>
      cases run'
      obtain rfl : typing = some held := told
      exact ⟨held, known', Attribute.admits_of_literal known read⟩
    | count select =>
      cases run'
      obtain rfl : typing = none := told
      have held : ScalarType.bigint.holds value = true := ScalarType.holds_of_literal known read
      cases value with
      | int64 n => exact ⟨n, rfl⟩
      | _ => cases held
    | value | null => exact told.elim

theorem typed_comparison {operator : Comparison} {one other : Request.Operand} {made : Condition}
    (sound : Sound c (r.root (r.table (some a))) r p)
    (run : comparison c (r.root (r.table (some a))) operator one other p = .ok made q) :
    Extends c (r.root (r.table (some a))) r p q ∧
      ∀ use ∈ made.uses, use.Typed c.metadata (tablesIn (r.root (r.table (some a))) q.joins) := by
  obtain ⟨s, p₁, s', p₂, typing, x, p₃, y, first, second, typed, left, right, rfl⟩ :=
    comparison_run run
  obtain ⟨before, known⟩ := typed_side sound first
  obtain ⟨further, known'⟩ := typed_side before.sound second
  obtain ⟨told, told'⟩ := tells_of_typing typed
  have bound := extends_bindSide further.sound left
  have later := bound.trans (extends_bindSide bound.sound right)
  have known := known.mono (further.trans later).later.tables_subset
  have known' := known'.mono later.later.tables_subset
  refine ⟨before.trans (further.trans later), List.forall_mem_append.2 ⟨?_, ?_⟩⟩
  · exact typed_bindSide known known' told left right
  · exact typed_bindSide known' known told' right left

/-! ## Conditions -/

theorem typed_textMatch {place : TextMatch} {path : List String} {text : String} {made : Condition}
    (sound : Sound c (r.root (r.table (some a))) r p)
    (run : textMatch c (r.root (r.table (some a))) place path text p = .ok made q) :
    ∀ use ∈ made.uses, use.Typed c.metadata (tablesIn (r.root (r.table (some a))) q.joins) := by
  obtain ⟨column, held, p₁, parameter, found, matchable, bound, rfl⟩ := textMatch_run run
  cases bound
  rw [Condition.uses, List.forall_mem_singleton]
  exact ⟨held, (described_field sound found).2, matchable, _, rfl⟩

theorem typed_anyOf {path : List String} {values : List Json} {made : Condition}
    (sound : Sound c (r.root (r.table (some a))) r p)
    (run : anyOf c (r.root (r.table (some a))) path values p = .ok made q) :
    ∀ use ∈ made.uses, use.Typed c.metadata (tablesIn (r.root (r.table (some a))) q.joins) := by
  obtain ⟨column, held, p₁, operands, -, found, bound, rfl⟩ := anyOf_run run
  have described := (described_field sound found).2
  have same : q.joins = p₁.joins := (forEach_run (fun s => s.joins = p₁.joins) (fun _ _ => True)
    (fun value _ operand s s' kept run => ?_) rfl bound).1
  · rw [same, Condition.uses, operandUses_eq_flatMap]
    intro use member
    obtain ⟨operand, listed, member⟩ := List.mem_flatMap.1 member
    obtain ⟨value, -, before, after, run⟩ := forEach_mem bound listed
    simp only [bind_eq_ok, ofExcept_eq_ok] at run
    obtain ⟨literal, _, ⟨read, rfl⟩, parameter, p₂, bound, run⟩ := run
    cases bound
    cases run
    obtain rfl := List.mem_singleton.1 member
    exact ⟨held, described, Attribute.null_or_admits_of_literal read⟩
  · simp only [bind_eq_ok, ofExcept_eq_ok] at run
    obtain ⟨literal, _, ⟨read, rfl⟩, parameter, p₂, bound, run⟩ := run
    cases bound
    cases run
    exact ⟨kept, trivial⟩

theorem uses_joined {connective : Connective} {conditions : List Condition} {made : Condition}
    (run : joined connective conditions p = .ok made q) :
    made.uses = conditions.flatMap Condition.uses := by
  obtain ⟨combined, -⟩ := joined_run run
  have uses := flatMap_combine (uses_logical connective) conditions
  rwa [combined, Option.toList_some, List.flatMap_singleton] at uses

theorem typed_joined {connective : Connective} {conditions : List Condition} {made : Condition}
    {around : List Table} (each : AllTyped c.metadata around (conditions.flatMap Condition.uses)
      (conditions.flatMap Condition.tables))
    (run : joined connective conditions p = .ok made q) :
    AllTyped c.metadata around made.uses made.tables := by
  obtain ⟨combined, -⟩ := joined_run run
  have tables := flatMap_combine (tables_logical connective) conditions
  rw [combined, Option.toList_some, List.flatMap_singleton] at tables
  rw [uses_joined run, tables]
  exact each

mutual

/-- Values in a condition have the types of what they meet in the tables of the scope, or in those
of the selects inside of it. -/
theorem typed_condition {r : Resource} {a : String} {p q : Progress} {made : Condition}
    (sound : Sound c (r.root (r.table (some a))) r p) : (filter : Request.Filter) →
    condition c (r.root (r.table (some a))) filter p = .ok made q →
    AllTyped c.metadata (tablesIn (r.root (r.table (some a))) q.joins) made.uses made.tables
  | .and terms, run => by
    simp only [condition, bind_eq_ok] at run
    obtain ⟨conditions, p₁, each, run⟩ := run
    obtain ⟨-, rfl⟩ := joined_run run
    exact typed_joined (typed_conditions sound terms each) run
  | .or terms, run => by
    simp only [condition, bind_eq_ok] at run
    obtain ⟨conditions, p₁, each, run⟩ := run
    obtain ⟨-, rfl⟩ := joined_run run
    exact typed_joined (typed_conditions sound terms each) run
  | .not filter, run => by
    simp only [condition, bind_eq_ok] at run
    obtain ⟨child, p₁, first, run⟩ := run
    cases run
    have typed := typed_condition sound filter first
    exact typed
  | .comparison operator left right, run => fun use member =>
    ((typed_comparison sound run).2 use member).mono (List.subset_append_left _ _)
  | .textMatch place path text, run => fun use member =>
    (typed_textMatch sound run use member).mono (List.subset_append_left _ _)
  | .any path values, run => fun use member =>
    (typed_anyOf sound run use member).mono (List.subset_append_left _ _)
  | .has path filter, run => by
    simp only [condition, bind_eq_ok] at run
    obtain ⟨select, p₁, inside, run⟩ := run
    cases run
    exact (typed_relatedSelect sound path filter inside).around_mono (List.nil_subset _)

/-- A select over related resources has the tables of its own conditions. -/
theorem typed_relatedSelect {r : Resource} {a : String} {p q : Progress} {select : Select}
    (sound : Sound c (r.root (r.table (some a))) r p) (path : List String) :
    (filter : Option Request.Filter) →
    relatedSelect c (r.root (r.table (some a))) path .one filter p = .ok select q →
    AllTyped c.metadata [] select.uses select.tables
  | none, run => by
    simp only [relatedSelect, bind_eq_ok] at run
    obtain ⟨opened, p₁, first, run⟩ := run
    cases run
    rw [uses_relatedSelect (related_link first).1]
    exact .nil
  | some filter, run => by
    simp only [relatedSelect, bind_eq_ok] at run
    obtain ⟨opened, p₁, first, ⟨inner, joins⟩, p₂, own, run⟩ := run
    obtain ⟨t, inside, rfl, rfl⟩ := inOwnScope_eq_ok.1 own
    cases run
    obtain ⟨uses, tables⟩ := related_link first
    obtain ⟨-, target, b, opens, start⟩ := opens_related sound (.table sound.named a) first
    rw [uses_relatedSelect uses, tables_relatedSelect tables, List.flatMap_singleton,
      List.flatMap_singleton, opens.root_eq]
    rw [opens.root_eq] at start inside
    exact (typed_condition start filter inside).of_subset (List.Subset.refl _)

theorem typed_conditions {r : Resource} {a : String} {p q : Progress} {made : List Condition}
    (sound : Sound c (r.root (r.table (some a))) r p) : (filters : List Request.Filter) →
    conditions c (r.root (r.table (some a))) filters p = .ok made q →
    AllTyped c.metadata (tablesIn (r.root (r.table (some a))) q.joins)
      (made.flatMap Condition.uses) (made.flatMap Condition.tables)
  | [], run => by
    cases run
    exact .nil
  | filter :: filters, run => by
    simp only [conditions, bind_eq_ok] at run
    obtain ⟨first, p₁, head, rest, p₂, tail, run⟩ := run
    cases run
    have extended := (finds_condition sound (.table sound.named a) filter head).1
    have further := (finds_conditions extended.sound (.table sound.named a) filters tail).1
    rw [List.flatMap_cons, List.flatMap_cons]
    refine AllTyped.append ?_ (typed_conditions extended.sound filters tail)
    exact (typed_condition sound filter head).around_mono further.later.tables_subset

end

/-! ## Queries -/

theorem typed_identity {id : Json} {made : Condition}
    (sound : Sound c (r.root (r.table (some a))) r p)
    (run : identity c (r.root (r.table (some a))) r id p = .ok made q) :
    AllTyped c.metadata (tablesIn (r.root (r.table (some a))) q.joins) made.uses made.tables := by
  obtain ⟨primaryKey, parameter, identified, bound, rfl⟩ := identity_run run
  intro use member
  obtain rfl := List.mem_singleton.1 member
  refine ⟨primaryKey, ?_, (bindId_value bound).1.admits identified⟩
  exact ⟨r, sound.named, List.mem_append_left _ (List.mem_cons_self ..), rfl, _,
    Resource.attribute_of_primaryKey identified⟩

theorem typed_optionally {α : Type} {step : α → Compile Condition} {given : Option α}
    {made : List Condition} {around : List Table}
    (each : ∀ {a b}, step a p = .ok b q → AllTyped c.metadata around b.uses b.tables)
    (run : optionally step given p = .ok made q) :
    AllTyped c.metadata around (made.flatMap Condition.uses) (made.flatMap Condition.tables) := by
  rcases optionally_run run with ⟨-, rfl, rfl⟩ | ⟨a, b, -, first, rfl⟩
  · exact .nil
  · simpa using each first

theorem typed_requestCondition {id : Option Json} {filter : Option Request.Filter}
    {made : Option Condition} (sound : Sound c (r.root (r.table (some a))) r p)
    (run : requestCondition c (r.root (r.table (some a))) r id filter p = .ok made q) :
    AllTyped c.metadata (tablesIn (r.root (r.table (some a))) q.joins) (filterUses made)
      (filterTables made) := by
  obtain ⟨identities, p₁, filters, first, second, rfl⟩ := requestCondition_run run
  have stands := StandsFor.table sound.named a
  have extended := (finds_optionally sound (finds_identity sound stands) first).1
  have further := (finds_optionally extended.sound (finds_condition extended.sound stands _) second).1
  rw [uses_conjunction?, tables_conjunction?, List.flatMap_append, List.flatMap_append]
  refine AllTyped.append ?_ (typed_optionally (typed_condition extended.sound _) second)
  exact (typed_optionally (typed_identity sound) first).around_mono further.later.tables_subset

/-- An order has no placeholders. -/
theorem uses_order {root : Occurrence} {sort : List Request.SortElement} {terms : List OrderTerm}
    (run : order c root sort p = .ok terms q) : orderUses (some terms) = [] := by
  rw [orderUses, termUses_eq_flatMap]
  refine List.flatMap_eq_nil_iff.2 fun term member => ?_
  rcases order_run run with ⟨-, ⟨resource, primaryKey, -, -, rfl⟩, -⟩ | ⟨-, run⟩
  · obtain rfl := List.mem_singleton.1 member
    rfl
  · obtain ⟨element, -, before, after, run⟩ := forEach_mem run member
    rcases orderTerm_run run with ⟨_, column, _, -, rfl⟩ | ⟨_, select, counted, rfl⟩
    · rfl
    · exact uses_count counted

section

variable {request : Request.Query} {select : Select}

/-- A select over a table has the tables of its scope. -/
theorem typed_over {joins : List PathJoin} {projection : Projection} {filter : Option Condition}
    {terms : Option (List OrderTerm)} {window : Window} {aliasName : Option String}
    (typed : AllTyped c.metadata (tablesIn (r.root (r.table (some a))) joins) (filterUses filter)
      (filterTables filter)) (ordered : orderUses terms = []) :
    let select := Select.mk projection (.table (r.table (some a))) (joins.map (·.join)) filter terms
      window aliasName
    AllTyped c.metadata [] select.uses select.tables := by
  simp only [Select.uses, Source.uses, ordered, List.nil_append, List.append_nil]
  refine typed.of_subset ?_
  rw [Select.tables, Source.tables, List.map_map, ← List.append_assoc, ← List.append_assoc]
  exact List.subset_append_left _ _

theorem typed_plainRows (sound : Sound c (r.root (r.table (some a))) r p)
    (run : plainRows c request r (r.table (some a)) p = .ok select q) :
    AllTyped c.metadata [] select.uses select.tables := by
  obtain ⟨p₁, filter, p₂, terms, t, columns, includes, first, second, -, rfl, -⟩ := plainRows_run run
  have stands := StandsFor.table sound.named a
  have included := extends_includePaths sound.inside includes
  have conditions := (finds_requestCondition included.sound stands first).1
  have arranged := (finds_order conditions.sound stands second).1
  refine typed_over ?_ (uses_order second)
  exact (typed_requestCondition included.sound first).around_mono arranged.later.tables_subset

theorem typed_page (sound : Sound c (r.root (r.table (some a))) r p)
    (run : page c request r (r.table (some a)) p = .ok select q) :
    AllTyped c.metadata [] select.uses select.tables := by
  obtain ⟨filter, p₁, terms, t, columns, first, second, -, rfl, -⟩ := page_run run
  have stands := StandsFor.table sound.named a
  have conditions := (finds_requestCondition sound.inside stands first).1
  have arranged := (finds_order conditions.sound stands second).1
  refine typed_over ?_ (uses_order second)
  exact (typed_requestCondition sound.inside first).around_mono arranged.later.tables_subset

/-- Around a page there are no further placeholders. -/
theorem typed_pagedRows (sound : Sound c (r.root (r.table (some a))) r p)
    (run : pagedRows c request r (r.table (some a)) p = .ok select q) :
    AllTyped c.metadata [] select.uses select.tables := by
  obtain ⟨inner, p₁, b, p₂, p₃, terms, t, columns, paged, -, -, second, -, rfl, -⟩ := pagedRows_run run
  have typed := typed_page sound paged
  rw [Select.uses, Source.uses, Select.uses_named, filterUses, uses_order second, List.append_nil,
    List.append_nil, Select.tables, Source.tables, Select.tables_named]
  exact typed.of_subset (List.subset_append_left _ _)

theorem typed_rows (run : rows c request .start = .ok select q) :
    AllTyped c.metadata [] select.uses select.tables := by
  obtain ⟨r, a, p, -, sound, run⟩ := rows_in_scope run
  rcases run with run | run
  · exact typed_plainRows sound run
  · exact typed_pagedRows sound run

theorem typed_rowCount (run : rowCount c request .start = .ok select q) :
    AllTyped c.metadata [] select.uses select.tables := by
  obtain ⟨r, table, p₁, filter, t, opened, first, rfl, -⟩ := rowCount_run run
  have sound := Sound.start opened
  obtain ⟨a, -, -, rfl⟩ := openTable_run opened
  exact typed_over (typed_requestCondition sound.inside first) rfl

end

end Compile

end

end ResourceSql
