/-
The columns that a page offers to the select around it. A page selects one column
for the primary key and for each other attribute, and one for each further
foreign key that the table holds; so a name is selected twice exactly if two
attributes share a column (`Resource.nodup_projected_iff`). Whatever is read
through the alias of a page, also by the selects of an order, is selected there
(`Sql.Select.offered_of_finds`).
-/
import ResourceSql.Proofs.Consistency
import ResourceSql.Proofs.Reads

namespace ResourceSql

/-! ## Selected columns -/

/-- A name that is found is entered once, beside all others. -/
theorem NameMap.perm_of_get? {α : Type} {map : NameMap α} {name : String} {value : α}
    (found : map.get? name = some value) :
    ((name, value) :: map.toList.filter (·.1 ≠ name)).Perm map.toList := by
  have entered := mem_of_get? found
  have ascending := map.ascending
  unfold toList at *
  generalize map.entries = entries at entered ascending
  induction entries with
  | nil => cases entered
  | cons head rest ih =>
    obtain ⟨above, tail⟩ := List.pairwise_cons.1 ascending
    rcases List.mem_cons.1 entered with rfl | later
    · have others : rest.filter (·.1 ≠ name) = rest := by
        refine List.filter_eq_self.2 fun entry member => ?_
        have before : name < entry.1 := above entry member
        exact decide_eq_true fun same => String.lt_irrefl _ (same ▸ before)
      rw [List.filter_cons_of_neg (by simp), others]
    · have before : head.1 < name := above _ later
      have different : head.1 ≠ name := fun same => String.lt_irrefl _ (same ▸ before)
      rw [List.filter_cons_of_pos (by simpa using different)]
      exact (List.Perm.swap ..).trans ((ih later tail).cons _)

namespace Resource

variable {r : Resource} {columns : List (String × Sql.ColumnRole)}

/-- A foreign key is added only if its column is new. -/
theorem nodup_addKeys_iff {relationships : List Relationship} :
    ((addKeys columns relationships).map (·.1)).Nodup ↔ (columns.map (·.1)).Nodup := by
  induction relationships generalizing columns with
  | nil => rfl
  | cons relationship relationships ih =>
    rw [addKeys, ih]
    split
    · next new =>
      have absent : relationship.foreignKey.column ∉ columns.map (·.1) := by
        simp only [Bool.and_eq_true, Bool.not_eq_true', List.any_eq_false, decide_eq_true_eq] at new
        intro given
        obtain ⟨entry, member, same⟩ := List.mem_map.1 given
        exact new.2 entry member same
      rw [List.map_append, List.map_singleton]
      exact (List.perm_append_singleton _ _).nodup_iff.trans (List.nodup_cons.trans
        (and_iff_right absent))
    · rfl

/-- A subquery selects a name twice exactly if two attributes share a column. -/
theorem nodup_projected_iff (projected : r.projectedColumns = .ok columns) :
    (columns.map (·.1)).Nodup ↔ (r.type.attributes.values.map (·.column)).Nodup := by
  obtain ⟨attributes, selected, projected⟩ := Except.bind_eq_ok.1 projected
  cases projected
  obtain ⟨primaryKey, identified, selected⟩ := Except.bind_eq_ok.1 selected
  cases selected
  rw [nodup_addKeys_iff, List.map_map]
  have same := NameMap.perm_of_get? (attribute_of_primaryKey identified)
  have columns := (same.map (·.2)).map Attribute.column
  exact columns.nodup_iff

/-- Checked metadata tell what a subquery selects. -/
theorem projected_of_check {m : Metadata} (checked : m.check = .ok ())
    (found : m.findResource r.name = .ok r) : ∃ columns, r.projectedColumns = .ok columns := by
  obtain ⟨primaryKey, identified, -⟩ := Metadata.primaryKey_of_check checked found
  exact ⟨_, Except.bind_eq_ok.2 ⟨_, Except.bind_eq_ok.2 ⟨primaryKey, identified, rfl⟩, rfl⟩⟩

end Resource

namespace Sql

/-! ## Columns that are read -/

def Join.reads (j : Join) : List Column := [j.outer, .ofTable j.inner]

def Projection.reads : Projection → List Column
  | .columns cs => cs
  | .one | .count => []

mutual

/-- The columns that are read anywhere in a select. -/
def Select.reads : Select → List Column
  | ⟨projection, source, joins, filter, order, _, _⟩ =>
    source.reads ++ (projection.reads ++ joins.flatMap Join.reads ++ filterReads filter ++
      orderReads order)

def Source.reads : Source → List Column
  | .table _ => []
  | .select s => s.reads

def filterReads : Option Condition → List Column
  | none => []
  | some c => c.reads

def orderReads : Option (List OrderTerm) → List Column
  | none => []
  | some terms => termReads terms

def termReads : List OrderTerm → List Column
  | [] => []
  | term :: terms => term.reads ++ termReads terms

def OrderTerm.reads : OrderTerm → List Column
  | .column c _ => [c]
  | .count s _ => s.reads

def Condition.reads : Condition → List Column
  | .not child => child.reads
  | .logical _ first second rest => first.reads ++ second.reads ++ conditionReads rest
  | .comparison _ left right => left.reads ++ right.reads
  | .like column _ _ => [column]
  | .isIn column values => column :: operandReads values
  | .exists select => select.reads

def conditionReads : List Condition → List Column
  | [] => []
  | c :: cs => c.reads ++ conditionReads cs

def Operand.reads : Operand → List Column
  | .column c => [c]
  | .parameter _ | .null => []
  | .count select => select.reads

def operandReads : List Operand → List Column
  | [] => []
  | o :: os => o.reads ++ operandReads os

end

/-- The columns that a select reads outside of its source. -/
def Select.readsAround (s : Select) : List Column :=
  s.projection.reads ++ s.joins.flatMap Join.reads ++ filterReads s.filter ++ orderReads s.order

/-! ## Columns of one alias -/

/-- Nothing else in the scope has the alias. -/
def Scope.IsOnly (σ : Scope) (a : String) (standing : Standing) : Prop :=
  ∀ other, (a, other) ∈ σ → other = standing

/-- What the columns with the alias name is offered by what it stands for. -/
def Offered (m : Metadata) (a : String) (standing : Standing) (cs : List Column) : Prop :=
  ∀ c ∈ cs, c.aliasName = some a → standing.Offers m c.name

section

variable {m : Metadata} {a : String} {standing : Standing} {σ : Scope}

theorem Scope.IsOnly.append {own outer : Scope} (others : a ∉ own.map (·.1))
    (only : outer.IsOnly a standing) : Scope.IsOnly (own ++ outer) a standing := by
  intro other member
  rcases List.mem_append.1 member with member | member
  · exact absurd (List.mem_map_of_mem (f := Prod.fst) member) others
  · exact only other member

theorem Scope.IsOnly.nil : Scope.IsOnly [] a standing := by simp [IsOnly]

theorem Offered.nil : Offered m a standing [] := by simp [Offered]

theorem Offered.append {cs ds : List Column} (h : Offered m a standing cs)
    (h' : Offered m a standing ds) : Offered m a standing (cs ++ ds) :=
  List.forall_mem_append.2 ⟨h, h'⟩

theorem Offered.of_found {cs : List Column} (only : σ.IsOnly a standing)
    (found : ∀ c ∈ cs, c.FoundIn m σ) : Offered m a standing cs := by
  intro c member named
  obtain ⟨b, other, named', there, offered⟩ := found c member
  obtain rfl := Option.some.inj (named.symm.trans named')
  rwa [← only other there]

theorem Projection.found_reads {p : Projection} (h : p.FoundIn m σ) :
    ∀ c ∈ p.reads, c.FoundIn m σ := by
  cases p with
  | columns cs => exact h
  | one => simp [reads]
  | count => simp [reads]

theorem Joined.found_reads {source : String × Standing} {joins : List Join}
    (h : Joined m source joins σ) : ∀ c ∈ joins.flatMap Join.reads, c.FoundIn m σ := by
  induction h with
  | nil => simp
  | snoc _ _ _ outer inner ih =>
    intro c member
    rw [List.flatMap_append] at member
    rcases List.mem_append.1 member with member | member
    · exact (ih c member).mono (List.subset_append_left _ _)
    · simp only [List.flatMap_singleton, Join.reads, List.mem_cons, List.not_mem_nil, or_false] at member
      rcases member with rfl | rfl
      · exact outer.mono (List.subset_append_left _ _)
      · exact inner.mono (List.subset_append_right _ _)

/-- The tables that are joined to a source leave its alias to it. -/
theorem Joined.isOnly {joins : List Join} (h : Joined m (a, standing) joins σ)
    (others : a ∉ joins.flatMap Join.aliases) : σ.IsOnly a standing := by
  generalize sourced : (a, standing) = source at h
  induction h with
  | nil =>
    obtain rfl := sourced
    intro other member
    exact (Prod.mk.inj (List.mem_singleton.1 member)).2
  | @snoc joins σ j r b _ _ table _ _ ih =>
    have declared : j.aliases = [b] := by simp [Join.aliases, table, Resource.table]
    simp only [List.flatMap_append, List.flatMap_singleton, declared, List.mem_append,
      List.mem_singleton, not_or] at others
    intro other member
    rcases List.mem_append.1 member with member | member
    · exact ih others.1 other member
    · exact absurd (Prod.mk.inj (List.mem_singleton.1 member)).1 others.2

mutual

/-- A select inside of which an alias is not declared anew reads through it only what is offered. -/
theorem Select.offered_of_finds {outer : Scope} {r : Resource} (only : outer.IsOnly a standing) :
    (s : Select) → a ∉ s.aliases → s.Finds m outer r → Offered m a standing s.reads
  | ⟨projection, source, joins, filter, order, _, _⟩, new, h => by
    obtain ⟨entry, own, inside, joined, projected, filtered, ordered⟩ := h
    simp only [Select.aliases, List.mem_append, not_or] at new
    obtain ⟨⟨⟨newSource, newJoins⟩, newFilter⟩, newOrder⟩ := new
    have names : a ∉ own.map (·.1) := by
      have declared := source.names_subset
      rw [joined.names, List.mem_cons, not_or]
      rw [Source.names_of_finds inside] at declared
      exact ⟨fun same => newSource (declared (same ▸ List.mem_cons_self ..)), newJoins⟩
    have visible := only.append names
    have around := (Offered.of_found visible (Projection.found_reads projected)).append
      (.of_found visible fun c member => (joined.found_reads c member).mono
        (List.subset_append_left _ _))
    exact (Source.offered_of_finds source newSource inside).append ((around.append
      (filterOffered_of_finds visible filter newFilter filtered)).append
      (orderOffered_of_finds visible order newOrder ordered))

theorem Source.offered_of_finds {r : Resource} {entry : String × Standing} : (s : Source) →
    a ∉ s.aliases → s.Finds m r entry → Offered m a standing s.reads
  | .table _, _, _ => .nil
  | .select s, new, h => by
    simp only [Source.aliases, List.mem_append, not_or] at new
    exact Select.offered_of_finds .nil s new.2 h.1

theorem filterOffered_of_finds {σ : Scope} (only : σ.IsOnly a standing) :
    (filter : Option Condition) → a ∉ filterAliases filter → filterFinds m σ filter →
      Offered m a standing (filterReads filter)
  | none, _, _ => .nil
  | some c, new, h => Condition.offered_of_finds only c new h

theorem orderOffered_of_finds {σ : Scope} (only : σ.IsOnly a standing) :
    (order : Option (List OrderTerm)) → a ∉ orderAliases order → orderFinds m σ order →
      Offered m a standing (orderReads order)
  | none, _, _ => .nil
  | some terms, new, h => termsOffered_of_find only terms new h

theorem termsOffered_of_find {σ : Scope} (only : σ.IsOnly a standing) :
    (terms : List OrderTerm) → a ∉ termAliases terms → termsFind m σ terms →
      Offered m a standing (termReads terms)
  | [], _, _ => .nil
  | term :: terms, new, h => by
    simp only [termAliases, List.mem_append, not_or] at new
    exact (OrderTerm.offered_of_finds only term new.1 h.1).append
      (termsOffered_of_find only terms new.2 h.2)

theorem OrderTerm.offered_of_finds {σ : Scope} (only : σ.IsOnly a standing) :
    (term : OrderTerm) → a ∉ term.aliases → term.Finds m σ → Offered m a standing term.reads
  | .column c _, _, h => .of_found only (List.forall_mem_singleton.2 h)
  | .count s _, new, h => by
    obtain ⟨r, -, inside⟩ := h
    exact Select.offered_of_finds only s new inside

theorem Condition.offered_of_finds {σ : Scope} (only : σ.IsOnly a standing) :
    (c : Condition) → a ∉ c.aliases → c.Finds m σ → Offered m a standing c.reads
  | .not child, new, h => Condition.offered_of_finds only child new h
  | .logical _ first second rest, new, h => by
    simp only [Condition.aliases, List.mem_append, not_or] at new
    exact ((Condition.offered_of_finds only first new.1.1 h.1).append
      (Condition.offered_of_finds only second new.1.2 h.2.1)).append
      (conditionsOffered_of_find only rest new.2 h.2.2)
  | .comparison _ left right, new, h => by
    simp only [Condition.aliases, List.mem_append, not_or] at new
    exact (Operand.offered_of_finds only left new.1 h.1).append
      (Operand.offered_of_finds only right new.2 h.2)
  | .like column _ _, _, h => .of_found only (List.forall_mem_singleton.2 h)
  | .isIn column values, new, h =>
    (show Offered m a standing [column] from .of_found only (List.forall_mem_singleton.2 h.1)).append
      (operandsOffered_of_find only values new h.2)
  | .exists select, new, h => by
    obtain ⟨r, -, inside⟩ := h
    exact Select.offered_of_finds only select new inside

theorem conditionsOffered_of_find {σ : Scope} (only : σ.IsOnly a standing) :
    (cs : List Condition) → a ∉ conditionAliases cs → conditionsFind m σ cs →
      Offered m a standing (conditionReads cs)
  | [], _, _ => .nil
  | c :: cs, new, h => by
    simp only [conditionAliases, List.mem_append, not_or] at new
    exact (Condition.offered_of_finds only c new.1 h.1).append
      (conditionsOffered_of_find only cs new.2 h.2)

theorem Operand.offered_of_finds {σ : Scope} (only : σ.IsOnly a standing) :
    (o : Operand) → a ∉ o.aliases → o.Finds m σ → Offered m a standing o.reads
  | .column c, _, h => .of_found only (List.forall_mem_singleton.2 h)
  | .parameter _, _, _ | .null, _, _ => .nil
  | .count select, new, h => by
    obtain ⟨r, -, inside⟩ := h
    exact Select.offered_of_finds only select new inside

theorem operandsOffered_of_find {σ : Scope} (only : σ.IsOnly a standing) :
    (os : List Operand) → a ∉ operandAliases os → operandsFind m σ os →
      Offered m a standing (operandReads os)
  | [], _, _ => .nil
  | o :: os, new, h => by
    simp only [operandAliases, List.mem_append, not_or] at new
    exact (Operand.offered_of_finds only o new.1 h.1).append
      (operandsOffered_of_find only os new.2 h.2)

end

/-- Around a subquery, what is read through its alias is selected by it. -/
theorem Select.offered_by_subquery {s page : Select} {r : Resource} (found : s.Finds m [] r)
    (distinct : s.aliases.Nodup) (inside : s.source = .select page) :
    ∃ a columns, page.aliasName = some a ∧ page.projection = .columns columns ∧
      Offered m a (.subquery (columns.map (·.name))) s.readsAround := by
  obtain ⟨projection, source, joins, filter, order, window, aliasName⟩ := s
  obtain rfl : source = .select page := inside
  obtain ⟨entry, own, ⟨inside, a, columns, named, selected, rfl⟩, joined, projected, filtered,
    ordered⟩ := found
  simp only [Select.aliases, Source.aliases, named, Option.toList_some, List.append_assoc,
    List.cons_append, List.nil_append, List.nodup_cons, List.mem_append, not_or] at distinct
  obtain ⟨⟨-, newJoins, newFilter, newOrder⟩, -⟩ := distinct
  have only := joined.isOnly newJoins
  rw [List.append_nil] at projected filtered ordered
  refine ⟨a, columns, named, selected, ?_⟩
  have around := (Offered.of_found only (Projection.found_reads projected)).append
    (.of_found only joined.found_reads)
  exact (around.append (filterOffered_of_finds only filter newFilter filtered)).append
    (orderOffered_of_finds only order newOrder ordered)

end

end Sql

namespace Compile

variable {c : Context} {request : Request.Query} {select page : Sql.Select} {r : Resource}

/-- A page selects the columns that are needed of its resources. -/
theorem page_of_rows (found : c.metadata.findResource request.resource = .ok r)
    (accepted : (rows c request).result = .ok select) (inside : select.source = .select page) :
    ∃ table columns, r.projectedColumns = .ok columns ∧
      page.projection = .columns (subqueryColumns table columns) := by
  obtain ⟨q, run⟩ := result_ok.1 accepted
  obtain ⟨other, table, p₁, p₂, opened, -, run⟩ := rows_run run
  obtain ⟨a, found', -, rfl⟩ := openTable_run opened
  obtain rfl := Except.ok.inj (found'.symm.trans found)
  rcases run with run | ⟨-, run⟩
  · obtain ⟨_, _, _, _, _, _, -, -, -, -, rfl, -⟩ := plainRows_run run
    cases inside
  · obtain ⟨inner, _, _, _, _, _, _, _, paged, -, -, -, -, rfl, -⟩ := pagedRows_run run
    cases inside
    obtain ⟨_, _, _, _, columns, -, -, projected, rfl, -⟩ := page_run paged
    exact ⟨_, columns, projected, rfl⟩

/-- A page selects each column once if no two attributes of its resources share one, and only then;
and what is read of a page is among the columns that it selects. So then every column that is read
of the page is one of those that it selects, and no other. -/
theorem page_projects_once {name : String} (checked : c.metadata.check = .ok ())
    (found : c.metadata.findResource name = .ok r) :
    ∃ columns, r.projectedColumns = .ok columns ∧
      ((columns.map (·.1)).Nodup ↔ (r.type.attributes.values.map (·.column)).Nodup) ∧
      ∀ request select page, request.resource = name → (rows c request).result = .ok select →
        select.source = .select page →
        ∃ a projected, page.aliasName = some a ∧ page.projection = .columns projected ∧
          projected.map (·.name) = columns.map (·.1) ∧
          ∀ x ∈ select.readsAround, x.aliasName = some a → x.name ∈ columns.map (·.1) ∧
            ((r.type.attributes.values.map (·.column)).Nodup →
              (columns.map (·.1)).count x.name = 1) := by
  obtain ⟨columns, projected⟩ :=
    Resource.projected_of_check checked (Metadata.findResource_self found)
  have distinct := Resource.nodup_projected_iff projected
  refine ⟨columns, projected, distinct, ?_⟩
  rintro request select page rfl accepted inside
  obtain ⟨table, others, same, selected⟩ := page_of_rows found accepted inside
  obtain rfl := Except.ok.inj (same.symm.trans projected)
  obtain ⟨r', found', finds⟩ := finds_rows accepted
  obtain ⟨a, given, named, selected', offered⟩ :=
    Sql.Select.offered_by_subquery finds (nodup_aliases (.inl accepted)) inside
  obtain rfl := Sql.Projection.columns.inj (selected'.symm.trans selected)
  have names : (subqueryColumns table others).map (·.name) = others.map (·.1) := by
    rw [subqueryColumns, List.map_map]
    rfl
  refine ⟨a, _, named, selected, names, fun x member through => ?_⟩
  have there : x.name ∈ (subqueryColumns table others).map (·.name) := offered x member through
  rw [names] at there
  exact ⟨there, fun single => (distinct.2 single).count.trans (if_pos there)⟩

/-- A title is read of the page of books, which selects it once. -/
theorem page_projects_once_books : ∃ select page a projected x,
    (rows Sample.context Sample.query).result = .ok select ∧ select.source = .select page ∧
    page.aliasName = some a ∧ page.projection = .columns projected ∧
    x ∈ select.readsAround ∧ x.aliasName = some a ∧ x.name = "title" ∧
    (projected.map (·.name)).count x.name = 1 := by
  obtain ⟨select, page, x, accepted, inside, named, member, read⟩ : ∃ select page x,
      (rows Sample.context Sample.query).result = .ok select ∧ select.source = .select page ∧
      page.aliasName = x.aliasName ∧ x ∈ select.readsAround ∧ x.name = "title" := by
    refine ⟨_, _, .ofSelect ⟨⟨"title", .scalar, some (tableAlias 1)⟩, tableAlias 2⟩, rfl, rfl, rfl,
      ?_, rfl⟩
    exact List.mem_append_left _ (List.mem_append_left _ (List.mem_append_left _
      (List.mem_cons_of_mem _ (List.mem_cons_self ..))))
  have found : Sample.context.metadata.findResource "book" = .ok ⟨"book", Sample.book⟩ := rfl
  obtain ⟨columns, -, -, pages⟩ := page_projects_once (by decide) found
  obtain ⟨a, projected, aliased, selected, names, reads⟩ :=
    pages Sample.query select page rfl accepted inside
  have through : x.aliasName = some a := named.symm.trans aliased
  refine ⟨select, page, a, projected, x, accepted, inside, aliased, selected, member, through, read, ?_⟩
  rw [names]
  exact (reads x member through).2 (by decide)

end Compile

/-- Books as before, with a second attribute for the column of the title. -/
def Sample.labelled : Context where
  metadata := ⟨⟨[("book", { Sample.book with
    attributes := ⟨[("id", ⟨"id", .integer, false, none⟩), ("label", ⟨"title", .text, false, none⟩),
      ("title", ⟨"title", .text, false, none⟩)], by decide⟩ })], by decide⟩, .empty⟩
  dialect := .postgreSql

/-- The title is read of a page that selects it twice. -/
theorem Compile.page_projects_twice : Sample.labelled.metadata.check = .ok () ∧
    ∃ select page a projected x, (rows Sample.labelled Sample.query).result = .ok select ∧
      select.source = .select page ∧ page.aliasName = some a ∧ page.projection = .columns projected ∧
      x ∈ select.readsAround ∧ x.aliasName = some a ∧
      projected.map (·.name) = ["id", "title", "title", "sequel_id"] ∧
      ["id", "title", "title", "sequel_id"].count x.name = 2 := by
  refine ⟨by decide, _, _, _, _, .ofSelect ⟨⟨"title", .scalar, some (tableAlias 1)⟩, tableAlias 2⟩,
    rfl, rfl, rfl, rfl, ?_, rfl, rfl, by decide⟩
  exact List.mem_append_left _ (List.mem_append_left _ (List.mem_append_left _
    (List.mem_cons_of_mem _ (List.mem_cons_self ..))))

end ResourceSql
