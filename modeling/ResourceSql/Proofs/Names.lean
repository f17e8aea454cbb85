/-
The names that a statement makes up: the placeholders of its parameters, which
`parametersOf` lists from left to right, and the aliases of its tables
(`Select.aliases`). Flattening a conjunction changes neither
(`flatMap_conjunction?`). Parameters that are numbered on from a number have
different names, so that a statement with such parameters binds each of them
under its own name (`bindingsOf_numberedFrom`).
-/
import Mathlib.Data.List.Basic
import ResourceSql.Proofs.Clauses

namespace ResourceSql

namespace Sql

/-! ## Placeholders among fragments -/

@[simp] theorem parametersOf_nil : parametersOf [] = [] := rfl

@[simp] theorem parametersOf_words (w : String) (fs : List Fragment) :
    parametersOf (.words w :: fs) = parametersOf fs := rfl

@[simp] theorem parametersOf_identifier (name : String) (fs : List Fragment) :
    parametersOf (.identifier name :: fs) = parametersOf fs := rfl

@[simp] theorem parametersOf_parameter (p : Parameter) (fs : List Fragment) :
    parametersOf (.parameter p :: fs) = p :: parametersOf fs := rfl

@[simp] theorem parametersOf_append (fs gs : List Fragment) :
    parametersOf (fs ++ gs) = parametersOf fs ++ parametersOf gs := List.filterMap_append

@[simp] theorem parametersOf_bracketed (fs : List Fragment) :
    parametersOf (bracketed fs) = parametersOf fs := by simp [bracketed]

@[simp] theorem parametersOf_spaced (fs : List Fragment) :
    parametersOf (spaced fs) = parametersOf fs := rfl

@[simp] theorem parametersOf_flatMap {α : Type} (f : α → List Fragment) (as : List α) :
    parametersOf (as.flatMap f) = as.flatMap fun a => parametersOf (f a) := by
  induction as with
  | nil => rfl
  | cons a as ih => simp [ih]

@[simp] theorem parametersOf_separated (separator : String) (fss : List (List Fragment)) :
    parametersOf (separated separator fss) = fss.flatMap parametersOf := by
  induction fss with
  | nil => rfl
  | cons fs fss ih =>
    cases fss with
    | nil => simp [separated]
    | cons gs fss => simp [separated, ih]

@[simp] theorem parametersOf_aliasFragments (aliasName : Option String) :
    parametersOf (aliasFragments aliasName) = [] := by cases aliasName <;> rfl

@[simp] theorem Table.parametersOf_fragments (t : Table) : parametersOf t.fragments = [] := by
  obtain ⟨schema, name, aliasName⟩ := t
  cases schema <;> simp [fragments]

@[simp] theorem TableColumn.parametersOf_fragments (c : TableColumn) :
    parametersOf c.fragments = [] := by
  obtain ⟨name, role, tableAlias⟩ := c
  cases tableAlias <;> simp [fragments, qualifier]

@[simp] theorem Column.parametersOf_fragments (c : Column) : parametersOf c.fragments = [] := by
  simp only [fragments]
  cases c.aliasName <;> simp [qualifier]

@[simp] theorem Join.parametersOf_fragments (j : Join) : parametersOf j.fragments = [] := by
  simp [fragments]

@[simp] theorem Projection.parametersOf_fragments (p : Projection) : parametersOf p.fragments = [] := by
  cases p <;> simp [fragments, List.flatMap_map]

@[simp] theorem parametersOf_windowFragments (d : Dialect) (ordered : Bool) (w : Window) :
    parametersOf (windowFragments d ordered w) = [] := by
  obtain ⟨limit, offset⟩ := w
  cases d <;> cases ordered <;> cases limit <;> cases offset <;> rfl

@[simp] theorem parametersOf_direction (ascending : Bool) :
    parametersOf (direction ascending) = [] := by cases ascending <;> rfl

/-! ## Placeholders of trees -/

section

variable (d : Dialect)

theorem parametersOf_select (s : Select) :
    parametersOf (s.fragments d) = parametersOf (s.source.clause d) ++
      (parametersOf (filterFragments d s.filter) ++ parametersOf (orderFragments d s.order)) := by
  obtain ⟨projection, source, joins, filter, order, window, aliasName⟩ := s
  simp [Select.fragments]

theorem parametersOf_tableClause (t : Table) :
    parametersOf ((Source.table t).clause d) = [] := by simp [Source.clause]

theorem parametersOf_selectClause (s : Select) :
    parametersOf ((Source.select s).clause d) = parametersOf (s.fragments d) := by
  simp [Source.clause]

theorem Select.fragments_named (s : Select) (aliasName : Option String) :
    Select.fragments d { s with aliasName } = s.fragments d := by
  cases s
  rfl

theorem parametersOf_filter (filter : Option Condition) :
    parametersOf (filterFragments d filter) =
      filter.toList.flatMap fun c => parametersOf (c.fragments d) := by
  cases filter <;> simp [filterFragments]

theorem parametersOf_order (terms : List OrderTerm) :
    parametersOf (orderFragments d (some terms)) =
      terms.flatMap fun t => parametersOf (t.fragments d) := by
  simp [orderFragments, orderTerms_eq_map, List.flatMap_map]

theorem parametersOf_comparison (operator : Comparison) (left right : Operand) :
    parametersOf ((Condition.comparison operator left right).fragments d) =
      parametersOf (left.fragments d) ++ parametersOf (right.fragments d) := by
  cases operator <;> cases left <;> cases right <;> simp [Condition.fragments, Operand.fragments]

theorem parametersOf_logical (connective : Connective) (first second : Condition)
    (rest : List Condition) :
    parametersOf ((Condition.logical connective first second rest).fragments d) =
      (first :: second :: rest).flatMap fun c => parametersOf (c.fragments d) := by
  simp [Condition.fragments, bracketedTerms_eq_map, List.flatMap_map]

theorem parametersOf_isIn (column : Column) (values : List Operand) :
    parametersOf ((Condition.isIn column values).fragments d) =
      values.flatMap fun o => parametersOf (o.fragments d) := by
  simp [Condition.fragments, operandTerms_eq_map, List.flatMap_map]

theorem parametersOf_update (u : Update) :
    parametersOf (u.fragments d) =
      (u.assignments.flatMap fun a => parametersOf (a.value.fragments d)) ++
        parametersOf (u.filter.fragments d) := by
  simp [Update.fragments, Assignment.fragments, filterFragments, List.flatMap_map]

theorem parametersOf_delete (x : Delete) :
    parametersOf (x.fragments d) = parametersOf (x.filter.fragments d) := by
  simp [Delete.fragments, filterFragments]

theorem parametersOf_ending (returning : Option TableColumn) :
    parametersOf (Insert.ending d returning) = [] := by
  cases d <;> cases returning <;> simp [Insert.ending]

theorem parametersOf_output (returning : Option TableColumn) :
    parametersOf (Insert.output d returning) = [] := by
  cases d <;> cases returning <;> rfl

theorem parametersOf_insert (i : Insert) :
    parametersOf (i.fragments d) =
      i.assignments.flatMap fun a => parametersOf (a.value.fragments d) := by
  obtain ⟨table, assignments, returning⟩ := i
  have ending := parametersOf_ending d returning
  have output := parametersOf_output d returning
  cases assignments with
  | nil => cases d <;> simp [Insert.fragments, ending, output]
  | cons a assignments =>
    cases d <;> simp [Insert.fragments, ending, output, List.flatMap_map]

end

/-! ## Numbered parameters -/

/-- The placeholder with a number. -/
def placeholder (n : Nat) : String := String.ofList ('@' :: 'p' :: Digits.ofNat n)

theorem placeholder_inj {n k : Nat} (h : placeholder n = placeholder k) : n = k := by
  have digits := String.ofList_injective h
  simp only [List.cons.injEq, true_and] at digits
  rw [← Digits.toNat_ofNat n, digits, Digits.toNat_ofNat]

@[simp] theorem Parameter.name_numbered (n : Nat) (value : Value) :
    (Parameter.numbered n value).name = placeholder n := rfl

/-- Parameters with values, numbered on behind a number. -/
def Parameter.numberedFrom (n : Nat) : List Value → List Parameter
  | [] => []
  | value :: values => .numbered (n + 1) value :: numberedFrom (n + 1) values

namespace Parameter

theorem numberedFrom_append (n : Nat) (values others : List Value) :
    numberedFrom n (values ++ others) =
      numberedFrom n values ++ numberedFrom (n + values.length) others := by
  induction values generalizing n with
  | nil => rfl
  | cons value values ih =>
    have next : n + 1 + values.length = n + (values.length + 1) := by omega
    simp only [List.cons_append, numberedFrom, ih, List.length_cons, next]

theorem names_numberedFrom (n : Nat) (values : List Value) :
    (numberedFrom n values).map (·.name) =
      (List.range' (n + 1) values.length).map placeholder := by
  induction values generalizing n with
  | nil => rfl
  | cons value values ih =>
    simp only [numberedFrom, List.map_cons, ih, List.length_cons, List.range'_succ, name_numbered]

theorem values_numberedFrom (n : Nat) (values : List Value) :
    (numberedFrom n values).map (·.value) = values := by
  induction values generalizing n with
  | nil => rfl
  | cons value values ih => rw [numberedFrom, List.map_cons, ih]; rfl

theorem nodup_numberedFrom (n : Nat) (values : List Value) :
    ((numberedFrom n values).map (·.name)).Nodup := by
  rw [names_numberedFrom]
  refine List.Pairwise.map placeholder ?_ List.nodup_range'
  intro i k different same
  exact different (placeholder_inj same)

end Parameter

namespace Bindings

theorem bind_new {name : String} {b : Bindings} (new : name ∉ b.map (·.1)) (value : Value) :
    b.bind name value = b ++ [(name, value)] := by
  induction b with
  | nil => rfl
  | cons head rest ih =>
    obtain ⟨other, held⟩ := head
    simp only [List.map_cons, List.mem_cons, not_or] at new
    simp only [bind, if_neg (Ne.symm new.1), ih new.2, List.cons_append]

/-- Names that come once each keep the values that they are bound to. -/
theorem foldl_bind_of_nodup {ps : List Parameter} {b : Bindings}
    (nodup : (b.map (·.1) ++ ps.map (·.name)).Nodup) :
    ps.foldl (fun b p => b.bind p.name p.value) b = b ++ ps.map fun p => (p.name, p.value) := by
  induction ps generalizing b with
  | nil => simp
  | cons p ps ih =>
    have new : p.name ∉ b.map (·.1) := by
      intro member
      exact (List.nodup_append.1 nodup).2.2 _ member _ (by simp) rfl
    rw [List.foldl_cons, bind_new new, ih (by simpa using nodup)]
    simp

end Bindings

/-- Numbered parameters are bound one by one. -/
theorem bindingsOf_numberedFrom {fs : List Fragment} {n : Nat} {values : List Value}
    (numbered : parametersOf fs = Parameter.numberedFrom n values) :
    bindingsOf fs = (parametersOf fs).map fun p => (p.name, p.value) := by
  have nodup : ((parametersOf fs).map (·.name)).Nodup := by
    rw [numbered]
    exact Parameter.nodup_numberedFrom n values
  have all := Bindings.foldl_bind_of_nodup (b := []) nodup
  rwa [List.nil_append] at all

/-! ## Aliases -/

/-- The alias of a joined table. -/
def Join.aliases (j : Join) : List String := j.table.aliasName.toList

mutual

/-- All aliases that are declared anywhere in a select. -/
def Select.aliases : Select → List String
  | ⟨_, source, joins, filter, order, _, _⟩ =>
    source.aliases ++ joins.flatMap Join.aliases ++ filterAliases filter ++ orderAliases order

def Source.aliases : Source → List String
  | .table t => t.aliasName.toList
  | .select s => s.aliasName.toList ++ s.aliases

def filterAliases : Option Condition → List String
  | none => []
  | some c => c.aliases

def orderAliases : Option (List OrderTerm) → List String
  | none => []
  | some terms => termAliases terms

def termAliases : List OrderTerm → List String
  | [] => []
  | term :: terms => term.aliases ++ termAliases terms

def OrderTerm.aliases : OrderTerm → List String
  | .column _ _ => []
  | .count s _ => s.aliases

def Condition.aliases : Condition → List String
  | .not child => child.aliases
  | .logical _ first second rest => first.aliases ++ second.aliases ++ conditionAliases rest
  | .comparison _ left right => left.aliases ++ right.aliases
  | .like _ _ _ => []
  | .isIn _ values => operandAliases values
  | .exists select => select.aliases

def conditionAliases : List Condition → List String
  | [] => []
  | c :: cs => c.aliases ++ conditionAliases cs

def Operand.aliases : Operand → List String
  | .column _ => []
  | .parameter _ => []
  | .null => []
  | .count select => select.aliases

def operandAliases : List Operand → List String
  | [] => []
  | o :: os => o.aliases ++ operandAliases os

end

/-- What a select is called is not declared in it. -/
theorem Select.aliases_named (s : Select) (aliasName : Option String) :
    Select.aliases { s with aliasName } = s.aliases := by
  cases s
  rfl

/-- A function that goes through a list, item by item, and gathers what it finds. -/
theorem eq_flatMap_of_steps {α β : Type} {f : α → List β} {each : List α → List β}
    (nil : each [] = []) (cons : ∀ a as, each (a :: as) = f a ++ each as) (as : List α) :
    each as = as.flatMap f := by
  induction as with
  | nil => exact nil
  | cons a as ih => rw [cons, ih, List.flatMap_cons]

theorem termAliases_eq_flatMap (terms : List OrderTerm) :
    termAliases terms = terms.flatMap OrderTerm.aliases :=
  eq_flatMap_of_steps rfl (fun _ _ => rfl) terms

theorem conditionAliases_eq_flatMap (cs : List Condition) :
    conditionAliases cs = cs.flatMap Condition.aliases :=
  eq_flatMap_of_steps rfl (fun _ _ => rfl) cs

theorem operandAliases_eq_flatMap (os : List Operand) :
    operandAliases os = os.flatMap Operand.aliases :=
  eq_flatMap_of_steps rfl (fun _ _ => rfl) os

theorem filterAliases_eq (filter : Option Condition) :
    filterAliases filter = filter.toList.flatMap Condition.aliases := by
  cases filter <;> simp [filterAliases]

theorem aliases_logical (connective : Connective) (first second : Condition)
    (rest : List Condition) :
    (Condition.logical connective first second rest).aliases =
      (first :: second :: rest).flatMap Condition.aliases := by
  simp [Condition.aliases, conditionAliases_eq_flatMap]

/-! ## Flattening -/

section

variable {β : Type} {f : Condition → List β}

theorem flatMap_combine {connective : Connective}
    (logical : ∀ first second rest,
      f (.logical connective first second rest) = (first :: second :: rest).flatMap f)
    (cs : List Condition) : (Condition.combine connective cs).toList.flatMap f = cs.flatMap f := by
  match cs with
  | [] => rfl
  | [c] => rfl
  | first :: second :: rest => simp [Condition.combine, logical]

/-- What the terms of a condition hold together is what the condition holds. -/
theorem flatMap_terms
    (logical : ∀ first second rest,
      f (.logical .and first second rest) = (first :: second :: rest).flatMap f)
    (c : Condition) : c.terms.flatMap f = f c := by
  induction c using Condition.conjunction_induction with
  | leaf c plain => simp [Condition.terms_of_not_conjunction plain]
  | conjunction first second rest ih =>
    rw [Condition.terms_conjunction, List.flatMap_assoc, logical]
    exact List.flatMap_congr ih

theorem apply_flatten
    (logical : ∀ first second rest,
      f (.logical .and first second rest) = (first :: second :: rest).flatMap f)
    (c : Condition) : f c.flatten = f c := by
  have terms := flatMap_terms logical c
  obtain single | ⟨first, second, rest, shape, flat⟩ := c.flatten_cases
  · simpa [single] using terms
  · rw [flat, logical, ← shape, terms]

/-- What conditions hold is what the flattened condition holds under which all of them hold. -/
theorem flatMap_conjunction?
    (logical : ∀ first second rest,
      f (.logical .and first second rest) = (first :: second :: rest).flatMap f)
    (cs : List Condition) : (conjunction? cs).toList.flatMap f = cs.flatMap f := by
  rw [← flatMap_combine logical cs]
  unfold conjunction?
  cases Condition.combine .and cs with
  | none => rfl
  | some c => simp [apply_flatten logical]

end

section

variable {P : Condition → Prop}

theorem forall_combine {connective : Connective}
    (logical : ∀ first second rest,
      P (.logical connective first second rest) ↔ ∀ c ∈ first :: second :: rest, P c)
    (cs : List Condition) : (∀ c ∈ Condition.combine connective cs, P c) ↔ ∀ c ∈ cs, P c := by
  match cs with
  | [] => simp [Condition.combine]
  | [c] => simp [Condition.combine]
  | first :: second :: rest => simp [Condition.combine, logical]

theorem forall_terms
    (logical : ∀ first second rest,
      P (.logical .and first second rest) ↔ ∀ c ∈ first :: second :: rest, P c)
    (c : Condition) : (∀ t ∈ c.terms, P t) ↔ P c := by
  induction c using Condition.conjunction_induction with
  | leaf c plain => simp [Condition.terms_of_not_conjunction plain]
  | conjunction first second rest ih =>
    rw [Condition.terms_conjunction, List.forall_mem_flatMap, logical]
    exact forall₂_congr ih

/-- What holds of a conjunction just if it holds of all its terms may be asked of conditions one by
one, and of the flattened condition under which all of them hold. -/
theorem forall_conjunction?
    (logical : ∀ first second rest,
      P (.logical .and first second rest) ↔ ∀ c ∈ first :: second :: rest, P c)
    (cs : List Condition) : (∀ c ∈ conjunction? cs, P c) ↔ ∀ c ∈ cs, P c := by
  rw [← forall_combine logical cs]
  unfold conjunction?
  cases Condition.combine .and cs with
  | none => simp
  | some c =>
    have terms := forall_terms logical c
    rw [← forall_combine logical] at terms
    unfold Condition.flatten
    cases combined : Condition.combine .and c.terms with
    | none => simp [combined]
    | some flat => simpa [combined] using terms

end

/-- A change of conditions goes through connectives, and makes no conjunctions. -/
structure KeepsConjunctions (f : Condition → Condition) : Prop where
  logical : ∀ connective first second rest, f (.logical connective first second rest) =
    .logical connective (f first) (f second) (rest.map f)
  other : ∀ c, c.isConjunction = false → (f c).isConjunction = false

section

variable {f : Condition → Condition}

theorem map_combine (keeps : KeepsConjunctions f) (connective : Connective) (cs : List Condition) :
    (Condition.combine connective cs).map f = Condition.combine connective (cs.map f) := by
  match cs with
  | [] => rfl
  | [c] => rfl
  | first :: second :: rest => simp [Condition.combine, keeps.logical]

theorem map_terms (keeps : KeepsConjunctions f) (c : Condition) :
    (f c).terms = c.terms.map f := by
  induction c using Condition.conjunction_induction with
  | leaf c plain =>
    simp [Condition.terms_of_not_conjunction plain,
      Condition.terms_of_not_conjunction (keeps.other c plain)]
  | conjunction first second rest ih =>
    rw [keeps.logical, Condition.terms_conjunction, Condition.terms_conjunction, List.map_flatMap,
      ← List.map_cons, ← List.map_cons, List.flatMap_map]
    exact List.flatMap_congr ih

/-- A flattened conjunction is changed term by term. -/
theorem map_conjunction? (keeps : KeepsConjunctions f) (cs : List Condition) :
    (conjunction? cs).map f = conjunction? (cs.map f) := by
  unfold conjunction?
  rw [← map_combine keeps]
  cases Condition.combine .and cs with
  | none => rfl
  | some c =>
    have flattened : f c.flatten = (f c).flatten := by
      unfold Condition.flatten
      rw [map_terms keeps, ← map_combine keeps]
      cases Condition.combine .and c.terms <;> rfl
    simp [flattened]

end

theorem parametersOf_conjunction? (d : Dialect) (cs : List Condition) :
    parametersOf (filterFragments d (conjunction? cs)) =
      cs.flatMap fun c => parametersOf (c.fragments d) := by
  rw [parametersOf_filter]
  exact flatMap_conjunction? (parametersOf_logical d .and) cs

theorem aliases_conjunction? (cs : List Condition) :
    filterAliases (conjunction? cs) = cs.flatMap Condition.aliases := by
  rw [filterAliases_eq]
  exact flatMap_conjunction? (aliases_logical .and) cs

end Sql

end ResourceSql
