/-
Names that a compilation gives out. Parameters are numbered on from the counter
of a statement, in the order in which they will stand in its text; an alias is
given out once, whatever else is declared in other scopes. `Issued` says both of
a step from one progress to another, for the parameters and the aliases of what
the step makes. The aliases of the joins in the scope itself are kept in the
progress, so that they count as given out by the step that joins them.
-/
import ResourceSql.Proofs.Names
import ResourceSql.Proofs.Runs

namespace ResourceSql

namespace Progress

/-- The aliases of the joins in the scope. -/
def aliases (p : Progress) : List String := p.joins.flatMap (·.join.aliases)

/-- No alias was given out twice: neither those of the joins in the scope, nor those that are held
elsewhere. -/
structure Distinct (p : Progress) (held : List String) : Prop where
  nodup : (p.aliases ++ held).Nodup
  given : ∀ a ∈ p.aliases ++ held, ∃ n ≤ p.tables, a = tableAlias n

theorem Distinct.perm {p : Progress} {held others : List String} (h : p.Distinct held)
    (same : held.Perm others) : p.Distinct others := by
  have all : (p.aliases ++ held).Perm (p.aliases ++ others) := same.append_left _
  exact ⟨all.nodup_iff.1 h.nodup, fun a member => h.given a (all.mem_iff.2 member)⟩

/-- Aliases that are held elsewhere may be those of joins. -/
theorem Distinct.of_perm {p q : Progress} {held others : List String} (h : p.Distinct held)
    (tables : q.tables = p.tables) (same : (p.aliases ++ held).Perm (q.aliases ++ others)) :
    q.Distinct others := by
  refine ⟨same.nodup_iff.1 h.nodup, fun a member => ?_⟩
  rw [tables]
  exact h.given a (same.mem_iff.2 member)

theorem Distinct.fresh {p : Progress} {held : List String} (h : p.Distinct held) :
    Progress.Distinct { p with tables := p.tables + 1 } (held ++ [tableAlias (p.tables + 1)]) := by
  have new : tableAlias (p.tables + 1) ∉ p.aliases ++ held := by
    intro member
    obtain ⟨n, le, same⟩ := h.given _ member
    have := tableAlias_inj same
    omega
  have all : Progress.aliases { p with tables := p.tables + 1 } ++
      (held ++ [tableAlias (p.tables + 1)]) =
        (p.aliases ++ held) ++ [tableAlias (p.tables + 1)] := (List.append_assoc ..).symm
  constructor
  · rw [all]
    refine List.nodup_append.2 ⟨h.nodup, by simp, ?_⟩
    intro a member b last same
    obtain rfl := List.mem_singleton.1 last
    exact new (same ▸ member)
  · intro a member
    rw [all] at member
    rcases List.mem_append.1 member with member | last
    · obtain ⟨n, le, same⟩ := h.given a member
      exact ⟨n, Nat.le_succ_of_le le, same⟩
    · exact ⟨p.tables + 1, Nat.le_refl _, List.mem_singleton.1 last⟩

end Progress

/-- Between two progresses the names of some parameters and aliases were given out. -/
structure Issued (ps : List Sql.Parameter) (as : List String) (p q : Progress) : Prop where
  numbered : ∃ values, ps = Sql.Parameter.numberedFrom p.parameters values ∧
    q.parameters = p.parameters + values.length
  distinct : ∀ held, p.Distinct held → q.Distinct (held ++ as)

namespace Issued

variable {ps qs : List Sql.Parameter} {as bs : List String} {p q s : Progress}

theorem of_eq (parameters : q.parameters = p.parameters) (tables : q.tables = p.tables)
    (joins : q.aliases = p.aliases) : Issued [] [] p q := by
  refine ⟨⟨[], rfl, by simpa using parameters⟩, fun held h => ?_⟩
  exact h.of_perm tables (by rw [joins, List.append_nil])

theorem refl (p : Progress) : Issued [] [] p p := of_eq rfl rfl rfl

theorem trans (h : Issued ps as p q) (h' : Issued qs bs q s) : Issued (ps ++ qs) (as ++ bs) p s := by
  obtain ⟨values, rfl, count⟩ := h.numbered
  obtain ⟨others, rfl, count'⟩ := h'.numbered
  refine ⟨⟨values ++ others, ?_, ?_⟩, fun held fresh => ?_⟩
  · rw [Sql.Parameter.numberedFrom_append, count]
  · rw [count', count, List.length_append, Nat.add_assoc]
  · have both := h'.distinct _ (h.distinct held fresh)
    rwa [List.append_assoc] at both

theorem perm (h : Issued ps as p q) (same : as.Perm bs) : Issued ps bs p q :=
  ⟨h.numbered, fun held fresh => (h.distinct held fresh).perm (same.append_left held)⟩

/-- The alias of a new join was given out before it was joined. -/
theorem join {j : PathJoin} (h : Issued ps j.join.aliases p q) :
    Issued ps [] p { q with joins := q.joins ++ [j] } := by
  refine ⟨h.numbered, fun held fresh => (h.distinct held fresh).of_perm rfl ?_⟩
  have joined : Progress.aliases { q with joins := q.joins ++ [j] } =
      q.aliases ++ j.join.aliases := by simp [Progress.aliases]
  rw [joined, List.append_nil, List.append_assoc]
  exact List.perm_append_comm.append_left _

/-- Around a scope, its joins are declared in what was made there. -/
theorem around (h : Issued ps as { p with joins := [] } q) :
    Issued ps (as ++ q.aliases) p { q with joins := p.joins } := by
  refine ⟨h.numbered, fun held fresh => ?_⟩
  have inside : Progress.Distinct { p with joins := [] } (p.aliases ++ held) :=
    fresh.of_perm rfl (List.Perm.refl _)
  refine (h.distinct _ inside).of_perm rfl ?_
  have kept : Progress.aliases { q with joins := p.joins } = p.aliases := rfl
  rw [kept]
  refine List.perm_append_comm.trans ?_
  simp only [List.append_assoc, List.Perm.refl]

/-- From the start, all aliases that are given out are different. -/
theorem nodup (h : Issued ps as .start q) : as.Nodup := by
  have none : Progress.Distinct .start [] := ⟨List.nodup_nil, by simp [Progress.aliases, Progress.start]⟩
  exact (List.nodup_append.1 (h.distinct [] none).nodup).2.1

end Issued

/-! ## Paths and fields -/

section

variable {c : Context} {p q : Progress} {root : Occurrence}

namespace Compile

open Sql

theorem issued_freshAlias {a : String} (run : freshAlias p = .ok a q) : Issued [] [a] p q := by
  rw [freshAlias_apply] at run
  cases run
  exact ⟨⟨[], rfl, rfl⟩, fun held fresh => fresh.fresh⟩

theorem issued_bindValue {value : Value} {parameter : Sql.Parameter}
    (run : bindValue value p = .ok parameter q) : Issued [parameter] [] p q := by
  rw [bindValue_apply] at run
  cases run
  refine ⟨⟨[value], rfl, rfl⟩, fun held fresh => ?_⟩
  rw [List.append_nil]
  exact fresh.of_perm rfl (List.Perm.refl _)

theorem issued_foreignKey {declaring : Resource} {relationship : String} {key : ForeignKey}
    (run : foreignKey c.metadata declaring relationship p = .ok key q) : Issued [] [] p q := by
  rw [foreignKey_run run]
  exact .of_eq rfl rfl rfl

theorem issued_includeJoin {path : List String} {u : Unit} (run : includeJoin path p = .ok u q) :
    Issued [] [] p q := by
  cases run
  refine .of_eq rfl rfl ?_
  simp only [Progress.aliases, List.flatMap_map]
  congr 1
  funext j
  split <;> rfl

theorem issued_follow {walk : Walk} {walked : List String} {here next : Occurrence}
    {relationship : String} (run : follow c walk walked here relationship p = .ok next q) :
    Issued [] [] p q := by
  obtain ⟨parent, key, p₁, looked, rest⟩ := follow_run run
  refine (issued_foreignKey looked).trans ?_
  rcases rest with ⟨-, rfl | marked⟩ | ⟨-, a, p₂, j, fresh, named, -, rfl⟩
  · exact .refl _
  · exact issued_includeJoin marked
  · have own : j.join.aliases = [a] := by simp [Sql.Join.aliases, named]
    exact Issued.join (own ▸ issued_freshAlias fresh)

theorem issued_walkOn {walk : Walk} {walked path : List String} {here next : Occurrence}
    (run : walkOn c walk walked here path p = .ok next q) : Issued [] [] p q := by
  induction path generalizing walked here p with
  | nil =>
    cases run
    exact .refl _
  | cons relationship path ih =>
    obtain ⟨there, p₁, step, run⟩ := bind_eq_ok.1 run
    exact (issued_follow step).trans (ih run)

theorem issued_walkPath {walk : Walk} {path : List String} {next : Occurrence}
    (run : walkPath c walk root path p = .ok next q) : Issued [] [] p q := issued_walkOn run

theorem issued_leadsToMany {here : Resource} {path : List String} {b : Bool}
    (run : leadsToMany c here path p = .ok b q) : Issued [] [] p q := by
  induction path generalizing here p with
  | nil =>
    cases run
    exact .refl _
  | cons relationship path ih =>
    obtain ⟨key, p₁, looked, run⟩ := bind_eq_ok.1 run
    refine (issued_foreignKey looked).trans ?_
    split at run
    · cases run
      exact .refl _
    · obtain ⟨target, p₂, found, run⟩ := bind_eq_ok.1 run
      obtain ⟨-, rfl⟩ := ofExcept_eq_ok.1 found
      exact ih run

theorem issued_anyLeadsToMany {here : Resource} {paths : List (List String)} {b : Bool}
    (run : anyLeadsToMany c here paths p = .ok b q) : Issued [] [] p q := by
  induction paths generalizing p with
  | nil =>
    cases run
    exact .refl _
  | cons path paths ih =>
    obtain ⟨found, p₁, looked, run⟩ := bind_eq_ok.1 run
    refine (issued_leadsToMany looked).trans ?_
    cases found with
    | true =>
      cases run
      exact .refl _
    | false => exact ih run

theorem issued_field {path : List String} {column : Sql.Column} {held : Attribute}
    (run : field c root path p = .ok (column, held) q) : Issued [] [] p q := by
  obtain ⟨here, p₁, resource, name, walked, -, rest⟩ := field_run run
  refine (issued_walkPath walked).trans ?_
  rcases rest with ⟨-, -, rfl⟩ | ⟨related, target, walked, -⟩
  · exact .refl _
  · exact issued_walkPath walked

theorem issued_bindId {resource : Resource} {id : Json} {parameter : Sql.Parameter}
    (run : bindId c resource id p = .ok parameter q) : Issued [parameter] [] p q := by
  obtain ⟨value, bound⟩ := bindId_run run
  exact issued_bindValue bound

/-- Each element is given names, in order. -/
theorem issued_forEach {α β : Type} {step : α → Compile β} {parameters : β → List Sql.Parameter}
    {aliases : β → List String} {given : List α} {made : List β}
    (each : ∀ a b p q, step a p = .ok b q → Issued (parameters b) (aliases b) p q)
    (run : forEach step given p = .ok made q) :
    Issued (made.flatMap parameters) (made.flatMap aliases) p q := by
  induction given generalizing made p with
  | nil =>
    cases run
    exact .refl _
  | cons a given ih =>
    simp only [forEach, bind_eq_ok] at run
    obtain ⟨b, p₁, first, bs, p₂, rest, run⟩ := run
    cases run
    exact (each a b p p₁ first).trans (ih rest)

/-! ## Conditions -/

variable {d : Dialect}

/-- A select over related resources makes no names but the alias of its table, beside those of its
joins and conditions. -/
theorem related_made {path : List String} {opened : Related}
    (run : related c root path p = .ok opened q) :
    ∃ a, Issued [] [a] p q ∧ ∀ projection joins conditions,
      let select := opened.select projection joins conditions
      parametersOf (select.fragments d) = conditions.flatMap (fun x => parametersOf (x.fragments d)) ∧
        select.aliases =
          a :: joins.flatMap (·.join.aliases) ++ conditions.flatMap Sql.Condition.aliases := by
  obtain ⟨here, p₁, parent, relationship, key, p₂, target, a, outer, inner, walked, -, looked, -,
    fresh, -, rfl⟩ := related_run run
  have issued := (issued_walkPath walked).trans ((issued_foreignKey looked).trans
    (issued_freshAlias fresh))
  refine ⟨a, issued, fun projection joins conditions => ⟨?_, ?_⟩⟩
  · have link : parametersOf ((Sql.Condition.equals (.column outer)
        (.column (.ofTable inner))).fragments d) = [] := by
      simp [Sql.Condition.equals, parametersOf_comparison, Sql.Operand.fragments]
    simp [Related.select, Sql.Select.simple, parametersOf_select, parametersOf_tableClause,
      parametersOf_conjunction?, link, Sql.orderFragments]
  · simp [Related.select, Sql.Select.simple, Sql.Select.aliases, Sql.Source.aliases,
      aliases_conjunction?, Sql.Condition.equals, Sql.Condition.aliases, Sql.Operand.aliases,
      Sql.orderAliases, Resource.table, List.flatMap_map]

/-- A select that counts binds nothing. -/
theorem issued_count {path : List String} {select : Sql.Select}
    (run : count c root path p = .ok select q) :
    Issued [] select.aliases p q ∧ parametersOf (select.fragments d) = [] := by
  obtain ⟨opened, first, rfl⟩ := count_run run
  obtain ⟨a, issued, made⟩ := related_made (d := d) first
  obtain ⟨parameters, aliases⟩ := made .count [] []
  exact ⟨aliases ▸ issued, parameters⟩

/-- The aliases in a side of a comparison. -/
def sideAliases : Side → List String
  | .count select => select.aliases
  | _ => []

theorem issued_side {operand : Request.Operand} {s : Side}
    (run : side c root operand p = .ok s q) :
    Issued [] (sideAliases s) p q ∧
      ∀ select, s = .count select → parametersOf (select.fragments d) = [] := by
  rcases side_run run with ⟨path, column, held, found, rfl⟩ | ⟨path, select, counted, rfl⟩ |
    ⟨plain, rfl⟩
  · exact ⟨issued_field found, by simp⟩
  · obtain ⟨issued, none⟩ := issued_count (d := d) counted
    refine ⟨issued, ?_⟩
    rintro _ ⟨⟩
    exact none
  · rcases plain with rfl | ⟨v, rfl⟩
    · exact ⟨.refl _, by simp⟩
    · exact ⟨.refl _, by simp⟩

/-- Binding a side gives out the name of its value. -/
theorem issued_bindSide {typing : Option Attribute} {s : Side} {operand : Sql.Operand}
    (counts : ∀ select, s = .count select → parametersOf (select.fragments d) = [])
    (run : bindSide c typing s p = .ok operand q) :
    Issued (parametersOf (operand.fragments d)) [] p q ∧ operand.aliases = sideAliases s := by
  rcases bindSide_run run with ⟨column, held, rfl, rfl, rfl⟩ | ⟨select, rfl, rfl, rfl⟩ |
    ⟨rfl, rfl, rfl⟩ | ⟨v, value, parameter, rfl, -, bound, rfl⟩
  · simp only [Operand.fragments, Column.parametersOf_fragments]
    exact ⟨.refl _, rfl⟩
  · simp only [Operand.fragments, parametersOf_bracketed, counts select rfl]
    exact ⟨.refl _, rfl⟩
  · exact ⟨.refl _, rfl⟩
  · exact ⟨issued_bindValue bound, rfl⟩

theorem issued_comparison {operator : Comparison} {left right : Request.Operand}
    {made : Sql.Condition} (run : comparison c root operator left right p = .ok made q) :
    Issued (parametersOf (made.fragments d)) made.aliases p q := by
  obtain ⟨a, p₁, b, p₂, typing, x, p₃, y, first, second, -, bound, bound', rfl⟩ :=
    comparison_run run
  obtain ⟨issued, counts⟩ := issued_side (d := d) first
  obtain ⟨issued', counts'⟩ := issued_side (d := d) second
  obtain ⟨named, same⟩ := issued_bindSide counts bound
  obtain ⟨named', same'⟩ := issued_bindSide counts' bound'
  have all := (issued.trans issued').trans (named.trans named')
  simp only [List.append_nil, List.nil_append] at all
  rw [parametersOf_comparison, Condition.aliases, same, same']
  exact all

theorem issued_textMatch {place : TextMatch} {path : List String} {text : String}
    {made : Sql.Condition} (run : textMatch c root place path text p = .ok made q) :
    Issued (parametersOf (made.fragments d)) made.aliases p q := by
  obtain ⟨column, held, p₁, parameter, found, -, bound, rfl⟩ := textMatch_run run
  have all := (issued_field found).trans (issued_bindValue bound)
  simpa [Condition.fragments, Condition.aliases] using all

/-- Parameters are bound for all values of a list, in order. -/
theorem issued_operands {α : Type} {step : α → Compile Sql.Operand} {given : List α}
    {made : List Sql.Operand}
    (each : ∀ a operand p q, step a p = .ok operand q →
      ∃ parameter, operand = .parameter parameter ∧ Issued [parameter] [] p q)
    (run : forEach step given p = .ok made q) :
    Issued (made.flatMap fun o => parametersOf (o.fragments d)) (made.flatMap Operand.aliases) p q := by
  refine issued_forEach (fun a operand p q run => ?_) run
  obtain ⟨parameter, rfl, issued⟩ := each a operand p q run
  exact issued

theorem issued_anyOf {path : List String} {values : List Json} {made : Sql.Condition}
    (run : anyOf c root path values p = .ok made q) :
    Issued (parametersOf (made.fragments d)) made.aliases p q := by
  obtain ⟨column, held, p₁, operands, -, found, bound, rfl⟩ := anyOf_run run
  rw [parametersOf_isIn, Condition.aliases, operandAliases_eq_flatMap]
  refine (issued_field found).trans (issued_operands (fun v operand p q run => ?_) bound)
  simp only [bind_eq_ok, ofExcept_eq_ok] at run
  obtain ⟨value, _, ⟨-, rfl⟩, parameter, p₁, bound, run⟩ := run
  cases run
  exact ⟨parameter, rfl, issued_bindValue bound⟩

/-- A connective makes no names of its own. -/
theorem names_joined {connective : Connective} {conditions : List Sql.Condition}
    {made : Sql.Condition} (run : joined connective conditions p = .ok made q) :
    parametersOf (made.fragments d) = conditions.flatMap (fun x => parametersOf (x.fragments d)) ∧
      made.aliases = conditions.flatMap Condition.aliases ∧ q = p := by
  obtain ⟨combined, rfl⟩ := joined_run run
  have parameters := flatMap_combine (f := fun x => parametersOf (x.fragments d))
    (parametersOf_logical d connective) conditions
  have aliases := flatMap_combine (aliases_logical connective) conditions
  rw [combined] at parameters aliases
  simp only [Option.toList_some, List.flatMap_singleton] at parameters aliases
  exact ⟨parameters, aliases, rfl⟩

mutual

theorem issued_condition {root : Occurrence} {p q : Progress} {made : Sql.Condition} :
    (filter : Request.Filter) → condition c root filter p = .ok made q →
    Issued (parametersOf (made.fragments d)) made.aliases p q
  | .and terms, run => by
    simp only [condition, bind_eq_ok] at run
    obtain ⟨conditions, p₁, each, run⟩ := run
    obtain ⟨parameters, aliases, rfl⟩ := names_joined (d := d) run
    rw [parameters, aliases]
    exact issued_conditions terms each
  | .or terms, run => by
    simp only [condition, bind_eq_ok] at run
    obtain ⟨conditions, p₁, each, run⟩ := run
    obtain ⟨parameters, aliases, rfl⟩ := names_joined (d := d) run
    rw [parameters, aliases]
    exact issued_conditions terms each
  | .not filter, run => by
    simp only [condition, bind_eq_ok] at run
    obtain ⟨child, p₁, first, run⟩ := run
    cases run
    have inside := issued_condition filter first
    simpa [Condition.fragments, Condition.aliases] using inside
  | .comparison operator left right, run => issued_comparison run
  | .textMatch place path text, run => issued_textMatch run
  | .any path values, run => issued_anyOf run
  | .has path filter, run => by
    simp only [condition, bind_eq_ok] at run
    obtain ⟨select, p₁, inside, run⟩ := run
    cases run
    have inside := issued_relatedSelect path .one filter inside
    simpa [Condition.fragments, Condition.aliases] using inside

theorem issued_relatedSelect {root : Occurrence} {p q : Progress} {select : Sql.Select}
    (path : List String) (projection : Sql.Projection) : (filter : Option Request.Filter) →
    relatedSelect c root path projection filter p = .ok select q →
    Issued (parametersOf (select.fragments d)) select.aliases p q
  | none, run => by
    simp only [relatedSelect, bind_eq_ok] at run
    obtain ⟨opened, p₁, first, run⟩ := run
    cases run
    obtain ⟨a, issued, made⟩ := related_made (d := d) first
    obtain ⟨parameters, aliases⟩ := made projection [] []
    rw [parameters, aliases]
    exact issued
  | some filter, run => by
    simp only [relatedSelect, bind_eq_ok] at run
    obtain ⟨opened, p₁, first, ⟨inner, joins⟩, p₂, own, run⟩ := run
    obtain ⟨t, inside, rfl, rfl⟩ := inOwnScope_eq_ok.1 own
    cases run
    obtain ⟨a, issued, made⟩ := related_made (d := d) first
    obtain ⟨parameters, aliases⟩ := made projection t.joins [inner]
    rw [parameters, aliases]
    have within := issued.trans (issued_condition filter inside).around
    simp only [List.nil_append, List.flatMap_singleton] at within ⊢
    have declared : ([a] ++ (inner.aliases ++ t.aliases)).Perm (a :: t.aliases ++ inner.aliases) := by
      simpa using List.perm_append_comm
    exact within.perm declared

theorem issued_conditions {root : Occurrence} {p q : Progress} {made : List Sql.Condition} :
    (filters : List Request.Filter) → conditions c root filters p = .ok made q →
    Issued (made.flatMap fun x => parametersOf (x.fragments d)) (made.flatMap Condition.aliases) p q
  | [], run => by
    cases run
    exact .refl _
  | filter :: filters, run => by
    simp only [conditions, bind_eq_ok] at run
    obtain ⟨first, p₁, head, rest, p₂, tail, run⟩ := run
    cases run
    exact (issued_condition filter head).trans (issued_conditions filters tail)

end

/-! ## Queries -/

theorem issued_optionally {α : Type} {step : α → Compile Sql.Condition} {given : Option α}
    {made : List Sql.Condition}
    (each : ∀ a b p q, step a p = .ok b q → Issued (parametersOf (b.fragments d)) b.aliases p q)
    (run : optionally step given p = .ok made q) :
    Issued (made.flatMap fun x => parametersOf (x.fragments d)) (made.flatMap Condition.aliases) p q := by
  rcases optionally_run run with ⟨-, rfl, rfl⟩ | ⟨a, b, -, first, rfl⟩
  · exact .refl _
  · simp only [List.flatMap_singleton]
    exact each a b p q first

theorem issued_identity {resource : Resource} {id : Json} {made : Sql.Condition}
    (run : identity c root resource id p = .ok made q) :
    Issued (parametersOf (made.fragments d)) made.aliases p q := by
  obtain ⟨primaryKey, parameter, -, bound, rfl⟩ := identity_run run
  simpa [Condition.equals, parametersOf_comparison, Operand.fragments, Condition.aliases,
    Operand.aliases] using issued_bindId bound

theorem issued_requestCondition {resource : Resource} {id : Option Json}
    {filter : Option Request.Filter} {made : Option Sql.Condition}
    (run : requestCondition c root resource id filter p = .ok made q) :
    Issued (parametersOf (filterFragments d made)) (filterAliases made) p q := by
  obtain ⟨identities, p₁, filters, first, second, rfl⟩ := requestCondition_run run
  rw [parametersOf_conjunction?, aliases_conjunction?, List.flatMap_append, List.flatMap_append]
  have identified := issued_optionally (d := d) (fun _ _ _ _ => issued_identity) first
  have filtered := issued_optionally (d := d) (fun a _ _ _ => issued_condition a) second
  exact identified.trans filtered

theorem issued_orderTerm {element : Request.SortElement} {term : Sql.OrderTerm}
    (run : orderTerm c root element p = .ok term q) :
    Issued (parametersOf (term.fragments d)) term.aliases p q := by
  rcases orderTerm_run run with ⟨path, column, held, found, rfl⟩ | ⟨path, select, counted, rfl⟩
  · simpa [OrderTerm.fragments, OrderTerm.aliases] using issued_field found
  · obtain ⟨issued, none⟩ := issued_count (d := d) counted
    simpa [OrderTerm.fragments, OrderTerm.aliases, none] using issued

theorem issued_order {sort : List Request.SortElement} {terms : List Sql.OrderTerm}
    (run : order c root sort p = .ok terms q) :
    Issued (parametersOf (orderFragments d (some terms))) (orderAliases (some terms)) p q := by
  rw [parametersOf_order, orderAliases, termAliases_eq_flatMap]
  rcases order_run run with ⟨-, ⟨resource, primaryKey, -, -, rfl⟩, rfl⟩ | ⟨-, run⟩
  · simpa [OrderTerm.fragments, OrderTerm.aliases] using Issued.refl q
  · exact issued_forEach (fun _ _ _ _ => issued_orderTerm) run

theorem issued_includePaths {paths : List (List String)} {u : Unit}
    (run : includePaths c root paths p = .ok u q) : Issued [] [] p q := by
  induction paths generalizing p with
  | nil =>
    cases run
    exact .refl _
  | cons path paths ih =>
    simp only [includePaths, bind_eq_ok] at run
    obtain ⟨there, p₁, walked, rest⟩ := run
    exact (issued_walkPath walked).trans (ih rest)

section

variable {request : Request.Query} {r : Resource} {table : Sql.Table} {select : Sql.Select}

/-- The parts of a select over a source that was opened before. -/
theorem issued_over {start t : Progress} {source : Source} {projection : Projection}
    {filter : Option Condition} {terms : Option (List OrderTerm)} {window : Window}
    (opened : Issued (parametersOf (source.clause d)) source.aliases start p)
    (inside : Issued (parametersOf (filterFragments d filter) ++ parametersOf (orderFragments d terms))
      (filterAliases filter ++ orderAliases terms) { p with joins := [] } t) :
    let select : Select := ⟨projection, source, t.joins.map (·.join), filter, terms, window, none⟩
    Issued (parametersOf (select.fragments d)) select.aliases start { t with joins := p.joins } := by
  intro select
  have own : (filterAliases filter ++ orderAliases terms ++ t.aliases).Perm
      (t.aliases ++ (filterAliases filter ++ orderAliases terms)) := List.perm_append_comm
  have declared : (source.aliases ++ (filterAliases filter ++ orderAliases terms ++ t.aliases)).Perm
      select.aliases := by
    simpa [select, Select.aliases, Progress.aliases, List.flatMap_map] using
      own.append_left source.aliases
  rw [parametersOf_select]
  exact (opened.trans inside.around).perm declared

variable {start : Progress}

/-- A table whose alias was given out. -/
theorem issued_table (opened : Issued [] table.aliasName.toList start p) :
    Issued (parametersOf ((Source.table table).clause d)) (Source.table table).aliases start p := by
  rw [parametersOf_tableClause]
  exact opened

theorem issued_plainRows (opened : Issued [] table.aliasName.toList start p)
    (run : plainRows c request r table p = .ok select q) :
    Issued (parametersOf (select.fragments d)) select.aliases start q := by
  obtain ⟨p₁, filter, p₂, terms, t, columns, includes, first, second, -, rfl, rfl⟩ :=
    plainRows_run run
  have arranged := (issued_requestCondition (d := d) first).trans (issued_order (d := d) second)
  exact issued_over (issued_table opened) ((issued_includePaths includes).trans arranged)

theorem issued_page (opened : Issued [] table.aliasName.toList start p)
    (run : page c request r table p = .ok select q) :
    Issued (parametersOf (select.fragments d)) select.aliases start q := by
  obtain ⟨filter, p₁, terms, t, columns, first, second, -, rfl, rfl⟩ := page_run run
  have arranged := (issued_requestCondition (d := d) first).trans (issued_order (d := d) second)
  exact issued_over (issued_table opened) arranged

theorem issued_pagedRows (opened : Issued [] table.aliasName.toList start p)
    (run : pagedRows c request r table p = .ok select q) :
    Issued (parametersOf (select.fragments d)) select.aliases start q := by
  obtain ⟨inner, p₁, a, p₂, p₃, terms, t, columns, paged, fresh, includes, second, -, rfl, rfl⟩ :=
    pagedRows_run run
  let source : Source := .select { inner with aliasName := some a }
  have opened : Issued (parametersOf (source.clause d)) source.aliases start p₂ := by
    have both := (issued_page (d := d) opened paged).trans (issued_freshAlias fresh)
    rw [List.append_nil] at both
    have named : source.aliases = [a] ++ inner.aliases := by
      simp [source, Source.aliases, Select.aliases_named]
    rw [parametersOf_selectClause, Select.fragments_named, named]
    exact both.perm List.perm_append_comm
  exact issued_over opened ((issued_includePaths includes).trans (issued_order second))

theorem issued_openTable {name : String} (run : openTable c name p = .ok (r, table) q) :
    Issued [] table.aliasName.toList p q := by
  obtain ⟨a, -, fresh, rfl⟩ := openTable_run run
  exact issued_freshAlias fresh

theorem issued_rows (run : rows c request p = .ok select q) :
    Issued (parametersOf (select.fragments d)) select.aliases p q := by
  obtain ⟨r, table, p₁, p₂, opened, looked, run⟩ := rows_run run
  have opened := issued_openTable opened
  have opened : Issued [] table.aliasName.toList p p₂ := by
    rcases looked with rfl | ⟨paged, looked⟩
    · exact opened
    · simpa using opened.trans (issued_anyLeadsToMany looked)
  rcases run with run | ⟨-, run⟩
  · exact issued_plainRows opened run
  · exact issued_pagedRows opened run

theorem issued_rowCount (run : rowCount c request p = .ok select q) :
    Issued (parametersOf (select.fragments d)) select.aliases p q := by
  obtain ⟨r, table, p₁, filter, t, opened, first, rfl, rfl⟩ := rowCount_run run
  have filtered := issued_requestCondition (d := d) first
  refine issued_over (issued_table (issued_openTable opened)) ?_
  simpa [orderFragments, orderAliases] using filtered

/-- No alias of a query is declared twice. -/
theorem nodup_aliases
    (accepted : (rows c request).result = .ok select ∨ (rowCount c request).result = .ok select) :
    select.aliases.Nodup := by
  rcases accepted with accepted | accepted
  · obtain ⟨q, run⟩ := result_ok.1 accepted
    exact (issued_rows (d := .postgreSql) run).nodup
  · obtain ⟨q, run⟩ := result_ok.1 accepted
    exact (issued_rowCount (d := .postgreSql) run).nodup

end

end Compile

end

end ResourceSql
