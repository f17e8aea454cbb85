/-
The columns that a statement reads, and what it reads them of. An alias stands
for a table of resources of one type, or for a subquery. A select finds its
columns if each of them is addressed through an alias that can be seen where it
stands, and is one that the table stores or the subquery selects
(`Select.Finds`). Such a select is scoped (`Select.isScoped_of_finds`).
-/
import ResourceSql.Proofs.Graph
import ResourceSql.Proofs.Visibility

namespace ResourceSql

/-! ## Stored columns -/

/-- The table of resources stores a column: one that it holds for them, or the foreign key of a
relationship that leads to them. -/
def Metadata.Stores (m : Metadata) (r : Resource) (column : String) : Prop :=
  r.Holds column ∨ ∃ declaring relationship d, m.findResource declaring.name = .ok declaring ∧
    declaring.type.relationships.get? relationship = some d ∧ d.target = r.name ∧
    d.foreignKey.atLeftSide = false ∧ d.foreignKey.column = column

/-- A link leads to a column that the table of its target stores. -/
theorem Metadata.Declares.stores_inner {m : Metadata} {here : Resource} {relationship : String}
    {l : Link} (h : m.Declares here relationship l) : m.Stores l.target l.inner := by
  obtain ⟨found, ⟨-, -, a, primaryKey, inner⟩ | ⟨right, inner, -⟩⟩ := h.columns
  · rw [inner]
    exact .inl (Resource.holds_of_primaryKey primaryKey)
  · obtain ⟨d, target, declared, named, key⟩ := ForeignKey.resolve_eq_ok.1 h.key
    have target : d.target = l.target.name := by
      rw [findResource_name found, key, findResource_name named]
    rw [key] at right inner
    exact .inr ⟨here, relationship, d, h.found, declared, target, right, inner.symm⟩

namespace Sql

/-! ## Scopes -/

/-- What an alias stands for: a table of resources, or a subquery that selects columns. -/
inductive Standing where
  | table (resource : String)
  | subquery (columns : List String)

/-- A column can be read of what an alias stands for. -/
def Standing.Offers (m : Metadata) (column : String) : Standing → Prop
  | .table name => ∃ r, m.findResource name = .ok r ∧ m.Stores r column
  | .subquery columns => column ∈ columns

/-- Aliases, and what they stand for. -/
abbrev Scope := List (String × Standing)

variable {m : Metadata} {σ τ : Scope}

/-- The column is addressed through an alias in the scope, which offers it. -/
def Column.FoundIn (m : Metadata) (σ : Scope) (c : Column) : Prop :=
  ∃ a standing, c.aliasName = some a ∧ (a, standing) ∈ σ ∧ standing.Offers m c.name

def Projection.FoundIn (m : Metadata) (σ : Scope) : Projection → Prop
  | .columns cs => ∀ c ∈ cs, c.FoundIn m σ
  | .one | .count => True

/-- Tables of resources are joined to a source, each of them on a column that was there before and
one of its own. -/
inductive Joined (m : Metadata) (source : String × Standing) : List Join → Scope → Prop
  | nil : Joined m source [] [source]
  | snoc {joins : List Join} {σ : Scope} {j : Join} {r : Resource} {a : String} :
    Joined m source joins σ → m.findResource r.name = .ok r → j.table = r.table (some a) →
    j.outer.FoundIn m σ → (Column.ofTable j.inner).FoundIn m [(a, .table r.name)] →
    Joined m source (joins ++ [j]) (σ ++ [(a, .table r.name)])

/-! ## Columns of selects -/

mutual

/-- The select reads resources of a type, and finds all columns. -/
def Select.Finds (m : Metadata) (outer : Scope) (r : Resource) : Select → Prop
  | ⟨projection, source, joins, filter, order, _, _⟩ =>
    ∃ entry own, source.Finds m r entry ∧ Joined m entry joins own ∧
      projection.FoundIn m (own ++ outer) ∧ filterFinds m (own ++ outer) filter ∧
      orderFinds m (own ++ outer) order

/-- The source reads resources of a type, and an alias stands for it. -/
def Source.Finds (m : Metadata) (r : Resource) (entry : String × Standing) : Source → Prop
  | .table t => ∃ a, t = r.table (some a) ∧ entry = (a, .table r.name)
  | .select s => s.Finds m [] r ∧ ∃ a columns, s.aliasName = some a ∧
      s.projection = .columns columns ∧ entry = (a, .subquery (columns.map (·.name)))

def filterFinds (m : Metadata) (σ : Scope) : Option Condition → Prop
  | none => True
  | some c => c.Finds m σ

def orderFinds (m : Metadata) (σ : Scope) : Option (List OrderTerm) → Prop
  | none => True
  | some terms => termsFind m σ terms

def termsFind (m : Metadata) (σ : Scope) : List OrderTerm → Prop
  | [] => True
  | term :: terms => term.Finds m σ ∧ termsFind m σ terms

def OrderTerm.Finds (m : Metadata) (σ : Scope) : OrderTerm → Prop
  | .column c _ => c.FoundIn m σ
  | .count s _ => ∃ r, m.findResource r.name = .ok r ∧ s.Finds m σ r

def Condition.Finds (m : Metadata) (σ : Scope) : Condition → Prop
  | .not child => child.Finds m σ
  | .logical _ first second rest =>
    first.Finds m σ ∧ second.Finds m σ ∧ conditionsFind m σ rest
  | .comparison _ left right => left.Finds m σ ∧ right.Finds m σ
  | .like column _ _ => column.FoundIn m σ
  | .isIn column values => column.FoundIn m σ ∧ operandsFind m σ values
  | .exists select => ∃ r, m.findResource r.name = .ok r ∧ select.Finds m σ r

def conditionsFind (m : Metadata) (σ : Scope) : List Condition → Prop
  | [] => True
  | c :: cs => c.Finds m σ ∧ conditionsFind m σ cs

def Operand.Finds (m : Metadata) (σ : Scope) : Operand → Prop
  | .column c => c.FoundIn m σ
  | .parameter _ | .null => True
  | .count select => ∃ r, m.findResource r.name = .ok r ∧ select.Finds m σ r

def operandsFind (m : Metadata) (σ : Scope) : List Operand → Prop
  | [] => True
  | o :: os => o.Finds m σ ∧ operandsFind m σ os

end

/-! ## Lists of parts -/

theorem termsFind_iff {terms : List OrderTerm} :
    termsFind m σ terms ↔ ∀ term ∈ terms, term.Finds m σ := by
  induction terms with
  | nil => simp [termsFind]
  | cons term terms ih => simp [termsFind, ih]

theorem conditionsFind_iff {cs : List Condition} :
    conditionsFind m σ cs ↔ ∀ c ∈ cs, c.Finds m σ := by
  induction cs with
  | nil => simp [conditionsFind]
  | cons c cs ih => simp [conditionsFind, ih]

theorem operandsFind_iff {os : List Operand} :
    operandsFind m σ os ↔ ∀ o ∈ os, o.Finds m σ := by
  induction os with
  | nil => simp [operandsFind]
  | cons o os ih => simp [operandsFind, ih]

theorem finds_logical (connective : Connective) (first second : Condition) (rest : List Condition) :
    (Condition.logical connective first second rest).Finds m σ ↔
      ∀ c ∈ first :: second :: rest, c.Finds m σ := by
  simp [Condition.Finds, conditionsFind_iff]

theorem filterFinds_conjunction? {cs : List Condition} (h : ∀ c ∈ cs, c.Finds m σ) :
    filterFinds m σ (conjunction? cs) := by
  have all := (forall_conjunction? (P := fun c => c.Finds m σ) (finds_logical .and) cs).2 h
  cases joint : conjunction? cs with
  | none => trivial
  | some c => exact all c (by simp [joint])

/-- What a select is called does not matter inside of it. -/
theorem Select.Finds.named {r : Resource} {s : Select} (h : s.Finds m σ r)
    (aliasName : Option String) : Select.Finds m σ r { s with aliasName } := by
  cases s
  exact h

/-! ## Larger scopes -/

theorem Column.FoundIn.mono {c : Column} (h : c.FoundIn m σ) (sub : σ ⊆ τ) : c.FoundIn m τ := by
  obtain ⟨a, standing, named, member, offered⟩ := h
  exact ⟨a, standing, named, sub member, offered⟩

theorem Projection.FoundIn.mono {p : Projection} (h : p.FoundIn m σ) (sub : σ ⊆ τ) :
    p.FoundIn m τ := by
  cases p with
  | columns cs => exact fun c member => (h c member).mono sub
  | one => trivial
  | count => trivial

mutual

theorem Select.Finds.mono {σ τ : Scope} {r : Resource} (sub : σ ⊆ τ) : (s : Select) →
    s.Finds m σ r → s.Finds m τ r
  | ⟨projection, source, joins, filter, order, _, _⟩, h => by
    obtain ⟨entry, own, inside, joined, projected, filtered, ordered⟩ := h
    have visible : own ++ σ ⊆ own ++ τ := by grind
    exact ⟨entry, own, inside, joined, projected.mono visible,
      filterFinds_mono visible filter filtered, orderFinds_mono visible order ordered⟩

theorem filterFinds_mono {σ τ : Scope} (sub : σ ⊆ τ) : (filter : Option Condition) →
    filterFinds m σ filter → filterFinds m τ filter
  | none, _ => trivial
  | some c, h => Condition.Finds.mono sub c h

theorem orderFinds_mono {σ τ : Scope} (sub : σ ⊆ τ) : (order : Option (List OrderTerm)) →
    orderFinds m σ order → orderFinds m τ order
  | none, _ => trivial
  | some terms, h => termsFind_mono sub terms h

theorem termsFind_mono {σ τ : Scope} (sub : σ ⊆ τ) : (terms : List OrderTerm) →
    termsFind m σ terms → termsFind m τ terms
  | [], _ => trivial
  | term :: terms, h => ⟨OrderTerm.Finds.mono sub term h.1, termsFind_mono sub terms h.2⟩

theorem OrderTerm.Finds.mono {σ τ : Scope} (sub : σ ⊆ τ) : (term : OrderTerm) →
    term.Finds m σ → term.Finds m τ
  | .column c _, h => Column.FoundIn.mono h sub
  | .count s _, h => by
    obtain ⟨r, found, inside⟩ := h
    exact ⟨r, found, Select.Finds.mono sub s inside⟩

theorem Condition.Finds.mono {σ τ : Scope} (sub : σ ⊆ τ) : (c : Condition) →
    c.Finds m σ → c.Finds m τ
  | .not child, h => Condition.Finds.mono sub child h
  | .logical _ first second rest, h =>
    ⟨Condition.Finds.mono sub first h.1, Condition.Finds.mono sub second h.2.1,
      conditionsFind_mono sub rest h.2.2⟩
  | .comparison _ left right, h =>
    ⟨Operand.Finds.mono sub left h.1, Operand.Finds.mono sub right h.2⟩
  | .like column _ _, h => Column.FoundIn.mono h sub
  | .isIn column values, h => ⟨Column.FoundIn.mono h.1 sub, operandsFind_mono sub values h.2⟩
  | .exists select, h => by
    obtain ⟨r, found, inside⟩ := h
    exact ⟨r, found, Select.Finds.mono sub select inside⟩

theorem conditionsFind_mono {σ τ : Scope} (sub : σ ⊆ τ) : (cs : List Condition) →
    conditionsFind m σ cs → conditionsFind m τ cs
  | [], _ => trivial
  | c :: cs, h => ⟨Condition.Finds.mono sub c h.1, conditionsFind_mono sub cs h.2⟩

theorem Operand.Finds.mono {σ τ : Scope} (sub : σ ⊆ τ) : (o : Operand) →
    o.Finds m σ → o.Finds m τ
  | .column c, h => Column.FoundIn.mono h sub
  | .parameter _, _ | .null, _ => trivial
  | .count select, h => by
    obtain ⟨r, found, inside⟩ := h
    exact ⟨r, found, Select.Finds.mono sub select inside⟩

theorem operandsFind_mono {σ τ : Scope} (sub : σ ⊆ τ) : (os : List Operand) →
    operandsFind m σ os → operandsFind m τ os
  | [], _ => trivial
  | o :: os, h => ⟨Operand.Finds.mono sub o h.1, operandsFind_mono sub os h.2⟩

end

/-! ## Found columns are seen -/

theorem Column.isSeen_of_found {c : Column} (h : c.FoundIn m σ) :
    c.isSeen (σ.map (·.1)) = true := by
  obtain ⟨a, standing, named, member, -⟩ := h
  have seen : a ∈ σ.map (·.1) := List.mem_map_of_mem member
  simpa [isSeen, named] using seen

theorem Column.isSeen_mono {c : Column} {visible others : List String} (sub : visible ⊆ others)
    (h : c.isSeen visible = true) : c.isSeen others = true := by
  unfold isSeen at *
  cases named : c.aliasName with
  | none => simp [named] at h
  | some a =>
    simp only [named, Option.any_some, decide_eq_true_eq] at h ⊢
    exact sub h

theorem Projection.isScoped_of_found {p : Projection} (h : p.FoundIn m σ) :
    p.isScoped (σ.map (·.1)) = true := by
  cases p with
  | columns cs => exact List.all_eq_true.2 fun c member => Column.isSeen_of_found (h c member)
  | one => rfl
  | count => rfl

theorem joinsScoped_append (before : List String) (joins others : List Join) :
    joinsScoped before (joins ++ others) =
      (joinsScoped before joins && joinsScoped (before ++ joins.flatMap Join.aliases) others) := by
  induction joins generalizing before with
  | nil => simp [joinsScoped]
  | cons j joins ih => simp [joinsScoped, ih, Bool.and_assoc]

namespace Joined

variable {source : String × Standing} {joins : List Join} {own : Scope}

theorem names (h : Joined m source joins own) :
    own.map (·.1) = source.1 :: joins.flatMap Join.aliases := by
  induction h with
  | nil => rfl
  | snoc _ _ table _ _ ih => simp [ih, Join.aliases, table, Resource.table]

theorem isScoped (h : Joined m source joins own) : joinsScoped [source.1] joins = true := by
  induction h with
  | nil => rfl
  | @snoc joins σ j r a joined _ table outer inner ih =>
    have named : j.aliases = [a] := by simp [Join.aliases, table, Resource.table]
    have before : [source.1] ++ joins.flatMap Join.aliases = σ.map (·.1) := by simp [joined.names]
    have seen : j.outer.isSeen (σ.map (·.1) ++ [a]) = true :=
      Column.isSeen_mono (List.subset_append_left _ _) (Column.isSeen_of_found outer)
    have seen' : (Column.ofTable j.inner).isSeen (σ.map (·.1) ++ [a]) = true :=
      Column.isSeen_mono (List.subset_append_right _ _) (Column.isSeen_of_found inner)
    rw [joinsScoped_append, ih, before]
    simp [joinsScoped, named, seen, seen']

end Joined

theorem Source.names_of_finds {s : Source} {r : Resource} {entry : String × Standing}
    (h : s.Finds m r entry) : s.names = [entry.1] := by
  cases s with
  | table t =>
    obtain ⟨a, rfl, rfl⟩ := h
    rfl
  | select s =>
    obtain ⟨-, a, columns, named, -, rfl⟩ := h
    simp [names, named]

mutual

/-- A select that finds its columns is scoped. -/
theorem Select.isScoped_of_finds {outer : Scope} {r : Resource} : (s : Select) →
    s.Finds m outer r → s.isScoped (outer.map (·.1)) = true
  | ⟨projection, source, joins, filter, order, _, _⟩, h => by
    obtain ⟨entry, own, inside, joined, projected, filtered, ordered⟩ := h
    have visible : source.names ++ joins.flatMap Join.aliases ++ outer.map (·.1) =
        (own ++ outer).map (·.1) := by
      simp [Source.names_of_finds inside, joined.names]
    have scopedJoins : joinsScoped source.names joins = true := by
      rw [Source.names_of_finds inside]
      exact joined.isScoped
    simp only [Select.isScoped, visible, Bool.and_eq_true]
    exact ⟨⟨⟨⟨Source.isScoped_of_finds source inside, scopedJoins⟩,
      Projection.isScoped_of_found projected⟩, filterScoped_of_finds filter filtered⟩,
      orderScoped_of_finds order ordered⟩

theorem Source.isScoped_of_finds {r : Resource} {entry : String × Standing} : (s : Source) →
    s.Finds m r entry → s.isScoped = true
  | .table _, _ => rfl
  | .select s, h => Select.isScoped_of_finds s h.1

theorem filterScoped_of_finds {σ : Scope} : (filter : Option Condition) →
    filterFinds m σ filter → filterScoped (σ.map (·.1)) filter = true
  | none, _ => rfl
  | some c, h => Condition.isScoped_of_finds c h

theorem orderScoped_of_finds {σ : Scope} : (order : Option (List OrderTerm)) →
    orderFinds m σ order → orderScoped (σ.map (·.1)) order = true
  | none, _ => rfl
  | some terms, h => termsScoped_of_find terms h

theorem termsScoped_of_find {σ : Scope} : (terms : List OrderTerm) → termsFind m σ terms →
    termsScoped (σ.map (·.1)) terms = true
  | [], _ => rfl
  | term :: terms, h => by
    simp only [termsScoped, Bool.and_eq_true]
    exact ⟨OrderTerm.isScoped_of_finds term h.1, termsScoped_of_find terms h.2⟩

theorem OrderTerm.isScoped_of_finds {σ : Scope} : (term : OrderTerm) → term.Finds m σ →
    term.isScoped (σ.map (·.1)) = true
  | .column _ _, h => Column.isSeen_of_found h
  | .count s _, h => by
    obtain ⟨r, -, inside⟩ := h
    exact Select.isScoped_of_finds s inside

theorem Condition.isScoped_of_finds {σ : Scope} : (c : Condition) → c.Finds m σ →
    c.isScoped (σ.map (·.1)) = true
  | .not child, h => Condition.isScoped_of_finds child h
  | .logical _ first second rest, h => by
    simp only [Condition.isScoped, Bool.and_eq_true]
    exact ⟨⟨Condition.isScoped_of_finds first h.1, Condition.isScoped_of_finds second h.2.1⟩,
      conditionsScoped_of_find rest h.2.2⟩
  | .comparison _ left right, h => by
    simp only [Condition.isScoped, Bool.and_eq_true]
    exact ⟨Operand.isScoped_of_finds left h.1, Operand.isScoped_of_finds right h.2⟩
  | .like _ _ _, h => Column.isSeen_of_found h
  | .isIn _ values, h => by
    simp only [Condition.isScoped, Bool.and_eq_true]
    exact ⟨Column.isSeen_of_found h.1, operandsScoped_of_find values h.2⟩
  | .exists select, h => by
    obtain ⟨r, -, inside⟩ := h
    exact Select.isScoped_of_finds select inside

theorem conditionsScoped_of_find {σ : Scope} : (cs : List Condition) → conditionsFind m σ cs →
    conditionsScoped (σ.map (·.1)) cs = true
  | [], _ => rfl
  | c :: cs, h => by
    simp only [conditionsScoped, Bool.and_eq_true]
    exact ⟨Condition.isScoped_of_finds c h.1, conditionsScoped_of_find cs h.2⟩

theorem Operand.isScoped_of_finds {σ : Scope} : (o : Operand) → o.Finds m σ →
    o.isScoped (σ.map (·.1)) = true
  | .column _, h => Column.isSeen_of_found h
  | .parameter _, _ | .null, _ => rfl
  | .count select, h => by
    obtain ⟨r, -, inside⟩ := h
    exact Select.isScoped_of_finds select inside

theorem operandsScoped_of_find {σ : Scope} : (os : List Operand) → operandsFind m σ os →
    operandsScoped (σ.map (·.1)) os = true
  | [], _ => rfl
  | o :: os, h => by
    simp only [operandsScoped, Bool.and_eq_true]
    exact ⟨Operand.isScoped_of_finds o h.1, operandsScoped_of_find os h.2⟩

end

end Sql

end ResourceSql
