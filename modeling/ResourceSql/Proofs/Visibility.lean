/-
Which aliases can be seen where in a statement. A column may be addressed
through the tables of its own select, and in the selects of conditions and of an
order also through those of the selects around them; a subquery in a `FROM`
clause sees nothing of what is around it, and shows nothing but its own alias.
A select in which that holds mentions no alias that it does not declare, but for
those that are visible around it (`Select.mentions_subset`).
-/
import ResourceSql.Proofs.Names

namespace ResourceSql.Sql

/-! ## Scoped selects -/

/-- The column is addressed through an alias that can be seen. -/
def Column.isSeen (visible : List String) (c : Column) : Bool := c.aliasName.any (· ∈ visible)

/-- Each join is on columns of the tables before it and its own. -/
def joinsScoped (before : List String) : List Join → Bool
  | [] => true
  | j :: joins =>
    j.outer.isSeen (before ++ j.aliases) && (Column.ofTable j.inner).isSeen (before ++ j.aliases) &&
      joinsScoped (before ++ j.aliases) joins

def Projection.isScoped (visible : List String) : Projection → Bool
  | .columns cs => cs.all (·.isSeen visible)
  | .one | .count => true

/-- The alias under which a source is read. -/
def Source.names : Source → List String
  | .table t => t.aliasName.toList
  | .select s => s.aliasName.toList

/-- The aliases under which a select reads rows. -/
def Select.names (s : Select) : List String := s.source.names ++ s.joins.flatMap Join.aliases

mutual

/-- Every column is addressed through an alias that can be seen where it stands. -/
def Select.isScoped (outer : List String) : Select → Bool
  | ⟨projection, source, joins, filter, order, _, _⟩ =>
    source.isScoped && joinsScoped source.names joins &&
      projection.isScoped (source.names ++ joins.flatMap Join.aliases ++ outer) &&
      filterScoped (source.names ++ joins.flatMap Join.aliases ++ outer) filter &&
      orderScoped (source.names ++ joins.flatMap Join.aliases ++ outer) order

def Source.isScoped : Source → Bool
  | .table _ => true
  | .select s => s.isScoped []

def filterScoped (visible : List String) : Option Condition → Bool
  | none => true
  | some c => c.isScoped visible

def orderScoped (visible : List String) : Option (List OrderTerm) → Bool
  | none => true
  | some terms => termsScoped visible terms

def termsScoped (visible : List String) : List OrderTerm → Bool
  | [] => true
  | term :: terms => term.isScoped visible && termsScoped visible terms

def OrderTerm.isScoped (visible : List String) : OrderTerm → Bool
  | .column c _ => c.isSeen visible
  | .count s _ => s.isScoped visible

def Condition.isScoped (visible : List String) : Condition → Bool
  | .not child => child.isScoped visible
  | .logical _ first second rest =>
    first.isScoped visible && second.isScoped visible && conditionsScoped visible rest
  | .comparison _ left right => left.isScoped visible && right.isScoped visible
  | .like column _ _ => column.isSeen visible
  | .isIn column values => column.isSeen visible && operandsScoped visible values
  | .exists select => select.isScoped visible

def conditionsScoped (visible : List String) : List Condition → Bool
  | [] => true
  | c :: cs => c.isScoped visible && conditionsScoped visible cs

def Operand.isScoped (visible : List String) : Operand → Bool
  | .column c => c.isSeen visible
  | .parameter _ | .null => true
  | .count select => select.isScoped visible

def operandsScoped (visible : List String) : List Operand → Bool
  | [] => true
  | o :: os => o.isScoped visible && operandsScoped visible os

end

/-! ## Mentioned aliases -/

def Column.mentions (c : Column) : List String := c.aliasName.toList

def Join.mentions (j : Join) : List String := j.outer.mentions ++ (Column.ofTable j.inner).mentions

def Projection.mentions : Projection → List String
  | .columns cs => cs.flatMap Column.mentions
  | .one | .count => []

mutual

/-- All aliases through which a column is addressed anywhere in a select. -/
def Select.mentions : Select → List String
  | ⟨projection, source, joins, filter, order, _, _⟩ =>
    source.mentions ++ (projection.mentions ++ joins.flatMap Join.mentions ++
      filterMentions filter ++ orderMentions order)

def Source.mentions : Source → List String
  | .table _ => []
  | .select s => s.mentions

def filterMentions : Option Condition → List String
  | none => []
  | some c => c.mentions

def orderMentions : Option (List OrderTerm) → List String
  | none => []
  | some terms => termMentions terms

def termMentions : List OrderTerm → List String
  | [] => []
  | term :: terms => term.mentions ++ termMentions terms

def OrderTerm.mentions : OrderTerm → List String
  | .column c _ => c.mentions
  | .count s _ => s.mentions

def Condition.mentions : Condition → List String
  | .not child => child.mentions
  | .logical _ first second rest => first.mentions ++ second.mentions ++ conditionMentions rest
  | .comparison _ left right => left.mentions ++ right.mentions
  | .like column _ _ => column.mentions
  | .isIn column values => column.mentions ++ operandMentions values
  | .exists select => select.mentions

def conditionMentions : List Condition → List String
  | [] => []
  | c :: cs => c.mentions ++ conditionMentions cs

def Operand.mentions : Operand → List String
  | .column c => c.mentions
  | .parameter _ | .null => []
  | .count select => select.mentions

def operandMentions : List Operand → List String
  | [] => []
  | o :: os => o.mentions ++ operandMentions os

end

theorem operandMentions_eq_flatMap (os : List Operand) :
    operandMentions os = os.flatMap Operand.mentions :=
  eq_flatMap_of_steps rfl (fun _ _ => rfl) os

/-- The aliases that a select mentions outside of its source. -/
def Select.mentionsAround (s : Select) : List String :=
  s.projection.mentions ++ s.joins.flatMap Join.mentions ++ filterMentions s.filter ++
    orderMentions s.order

/-! ## What is mentioned can be seen -/

theorem Column.mentions_subset {visible : List String} {c : Column} (h : c.isSeen visible = true) :
    c.mentions ⊆ visible := by
  unfold isSeen at h
  unfold mentions
  cases named : c.aliasName with
  | none => simp
  | some a => simpa [named] using h

theorem Projection.mentions_subset {visible : List String} {p : Projection}
    (h : p.isScoped visible = true) : p.mentions ⊆ visible := by
  cases p with
  | columns cs =>
    simp only [isScoped, List.all_eq_true] at h
    intro a member
    obtain ⟨c, given, mentioned⟩ := List.mem_flatMap.1 member
    exact Column.mentions_subset (h c given) mentioned
  | one => simp [mentions]
  | count => simp [mentions]

theorem joins_mentions_subset {before : List String} {joins : List Join}
    (h : joinsScoped before joins = true) :
    joins.flatMap Join.mentions ⊆ before ++ joins.flatMap Join.aliases := by
  induction joins generalizing before with
  | nil => simp
  | cons j joins ih =>
    simp only [joinsScoped, Bool.and_eq_true] at h
    obtain ⟨⟨outer, inner⟩, rest⟩ := h
    have own := Column.mentions_subset outer
    have own' := Column.mentions_subset inner
    have others := ih rest
    simp only [List.flatMap_cons, Join.mentions]
    grind

/-- The parts of a select around its source mention what they declare, and what they can see. -/
theorem around_subset {source : Source} {projection : Projection} {joins : List Join}
    {filtered filterNames ordered orderNames outer : List String}
    (joined : joinsScoped source.names joins = true)
    (projected : projection.isScoped (source.names ++ joins.flatMap Join.aliases ++ outer) = true)
    (filters : filtered ⊆ filterNames ++ (source.names ++ joins.flatMap Join.aliases ++ outer))
    (orders : ordered ⊆ orderNames ++ (source.names ++ joins.flatMap Join.aliases ++ outer)) :
    projection.mentions ++ joins.flatMap Join.mentions ++ filtered ++ ordered ⊆
      source.names ++ joins.flatMap Join.aliases ++ filterNames ++ orderNames ++ outer := by
  have joined := joins_mentions_subset joined
  have projected := Projection.mentions_subset projected
  grind

theorem Source.names_subset (s : Source) : s.names ⊆ s.aliases := by
  cases s with
  | table t => simp [names, aliases]
  | select s => simp [names, aliases]

mutual

/-- A scoped select mentions only what it declares and what can be seen around it. -/
theorem Select.mentions_subset {outer : List String} : (s : Select) → s.isScoped outer = true →
    s.mentions ⊆ s.aliases ++ outer
  | ⟨projection, source, joins, filter, order, _, _⟩, h => by
    simp only [Select.isScoped, Bool.and_eq_true] at h
    obtain ⟨⟨⟨⟨inside, joined⟩, projected⟩, filtered⟩, ordered⟩ := h
    have inside := Source.mentions_subset source inside
    have around := around_subset joined projected (filterMentions_subset filter filtered)
      (orderMentions_subset order ordered)
    have names := source.names_subset
    simp only [Select.mentions, Select.aliases]
    grind

theorem Source.mentions_subset : (s : Source) → s.isScoped = true → s.mentions ⊆ s.aliases
  | .table _, _ => by simp [Source.mentions]
  | .select s, h => by
    have inside := Select.mentions_subset s h
    simp only [Source.mentions, Source.aliases]
    grind

theorem filterMentions_subset {visible : List String} : (filter : Option Condition) →
    filterScoped visible filter = true → filterMentions filter ⊆ filterAliases filter ++ visible
  | none, _ => by simp [filterMentions]
  | some c, h => Condition.mentions_subset c h

theorem orderMentions_subset {visible : List String} : (order : Option (List OrderTerm)) →
    orderScoped visible order = true → orderMentions order ⊆ orderAliases order ++ visible
  | none, _ => by simp [orderMentions]
  | some terms, h => termMentions_subset terms h

theorem termMentions_subset {visible : List String} : (terms : List OrderTerm) →
    termsScoped visible terms = true → termMentions terms ⊆ termAliases terms ++ visible
  | [], _ => by simp [termMentions]
  | term :: terms, h => by
    simp only [termsScoped, Bool.and_eq_true] at h
    have first := OrderTerm.mentions_subset term h.1
    have rest := termMentions_subset terms h.2
    simp only [termMentions, termAliases]
    grind

theorem OrderTerm.mentions_subset {visible : List String} : (term : OrderTerm) →
    term.isScoped visible = true → term.mentions ⊆ term.aliases ++ visible
  | .column c _, h => by
    have seen : c.mentions ⊆ visible := Column.mentions_subset h
    simp only [OrderTerm.mentions, OrderTerm.aliases]
    grind
  | .count s _, h => Select.mentions_subset s h

theorem Condition.mentions_subset {visible : List String} : (c : Condition) →
    c.isScoped visible = true → c.mentions ⊆ c.aliases ++ visible
  | .not child, h => Condition.mentions_subset child h
  | .logical _ first second rest, h => by
    simp only [Condition.isScoped, Bool.and_eq_true] at h
    have first := Condition.mentions_subset first h.1.1
    have second := Condition.mentions_subset second h.1.2
    have rest := conditionMentions_subset rest h.2
    simp only [Condition.mentions, Condition.aliases]
    grind
  | .comparison _ left right, h => by
    simp only [Condition.isScoped, Bool.and_eq_true] at h
    have left := Operand.mentions_subset left h.1
    have right := Operand.mentions_subset right h.2
    simp only [Condition.mentions, Condition.aliases]
    grind
  | .like column _ _, h => by
    have seen : column.mentions ⊆ visible := Column.mentions_subset h
    simp only [Condition.mentions, Condition.aliases]
    grind
  | .isIn column values, h => by
    simp only [Condition.isScoped, Bool.and_eq_true] at h
    have seen := Column.mentions_subset h.1
    have values := operandMentions_subset values h.2
    simp only [Condition.mentions, Condition.aliases]
    grind
  | .exists select, h => Select.mentions_subset select h

theorem conditionMentions_subset {visible : List String} : (cs : List Condition) →
    conditionsScoped visible cs = true → conditionMentions cs ⊆ conditionAliases cs ++ visible
  | [], _ => by simp [conditionMentions]
  | c :: cs, h => by
    simp only [conditionsScoped, Bool.and_eq_true] at h
    have first := Condition.mentions_subset c h.1
    have rest := conditionMentions_subset cs h.2
    simp only [conditionMentions, conditionAliases]
    grind

theorem Operand.mentions_subset {visible : List String} : (o : Operand) →
    o.isScoped visible = true → o.mentions ⊆ o.aliases ++ visible
  | .column c, h => by
    have seen : c.mentions ⊆ visible := Column.mentions_subset h
    simp only [Operand.mentions, Operand.aliases]
    grind
  | .parameter _, _ | .null, _ => by simp [Operand.mentions]
  | .count select, h => Select.mentions_subset select h

theorem operandMentions_subset {visible : List String} : (os : List Operand) →
    operandsScoped visible os = true → operandMentions os ⊆ operandAliases os ++ visible
  | [], _ => by simp [operandMentions]
  | o :: os, h => by
    simp only [operandsScoped, Bool.and_eq_true] at h
    have first := Operand.mentions_subset o h.1
    have rest := operandMentions_subset os h.2
    simp only [operandMentions, operandAliases]
    grind

end

/-- A subquery mentions only what it declares itself, and the select around it nothing of that. -/
theorem Select.subquery_apart {s page : Select} (sound : s.isScoped [] = true)
    (distinct : s.aliases.Nodup) (inside : s.source = .select page) :
    page.mentions ⊆ page.aliases ∧ ∀ a ∈ s.mentionsAround, a ∉ page.aliases := by
  obtain ⟨projection, source, joins, filter, order, window, aliasName⟩ := s
  obtain rfl : source = .select page := inside
  simp only [isScoped, Source.isScoped, Bool.and_eq_true] at sound
  obtain ⟨⟨⟨⟨inside, joined⟩, projected⟩, filtered⟩, ordered⟩ := sound
  have own := Select.mentions_subset page inside
  have around := around_subset joined projected (filterMentions_subset filter filtered)
    (orderMentions_subset order ordered)
  simp only [aliases, Source.aliases] at distinct
  simp only [Source.names] at around
  refine ⟨by simpa using own, fun a member => ?_⟩
  have declared := around member
  grind

end ResourceSql.Sql
