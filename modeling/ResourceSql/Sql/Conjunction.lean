/-
Flattening of nested conjunctions. The terms of a condition are the conditions
that a conjunction, however nested, holds all together, from left to right; any
other condition is its own only term. A condition is flat if flattening leaves
it as it is (`flatten_eq_self_iff`).
-/
import ResourceSql.Sql.Tree

namespace ResourceSql.Sql

namespace Condition

mutual

/-- The terms of a condition. -/
def terms : Condition → List Condition
  | logical .and first second rest => terms first ++ terms second ++ termsOfAll rest
  | condition => [condition]

def termsOfAll : List Condition → List Condition
  | [] => []
  | condition :: conditions => terms condition ++ termsOfAll conditions

end

/-- The same condition, in which no conjunction is a direct term of a conjunction. -/
def flatten (condition : Condition) : Condition :=
  (combine .and (terms condition)).getD condition

def isConjunction : Condition → Bool
  | logical .and .. => true
  | _ => false

/-- No conjunction is a direct term of the condition, if that is a conjunction itself. -/
def isFlat : Condition → Bool
  | logical .and first second rest => (first :: second :: rest).all (!·.isConjunction)
  | _ => true

/-! ## Flat conditions -/

theorem terms_of_not_conjunction {c : Condition} (h : c.isConjunction = false) : c.terms = [c] := by
  unfold terms
  split
  · simp [isConjunction] at h
  · rfl

mutual

/-- What holds of every condition that is no conjunction, and of a conjunction if it holds of its
direct terms, holds of all conditions. -/
@[elab_as_elim]
theorem conjunction_induction {motive : Condition → Prop}
    (leaf : ∀ c, c.isConjunction = false → motive c)
    (conjunction : ∀ first second rest, (∀ c ∈ first :: second :: rest, motive c) →
      motive (logical .and first second rest)) : (c : Condition) → motive c
  | logical .and first second rest => by
    apply conjunction
    simp only [List.forall_mem_cons]
    exact ⟨conjunction_induction leaf conjunction first,
      conjunction_induction leaf conjunction second, forall_mem_induction leaf conjunction rest⟩
  | logical .or .. | .not _ | comparison .. | like .. | isIn .. | .exists _ => leaf _ rfl

theorem forall_mem_induction {motive : Condition → Prop}
    (leaf : ∀ c, c.isConjunction = false → motive c)
    (conjunction : ∀ first second rest, (∀ c ∈ first :: second :: rest, motive c) →
      motive (logical .and first second rest)) : (cs : List Condition) → ∀ c ∈ cs, motive c
  | [] => by simp
  | c :: cs => by
    simp only [List.forall_mem_cons]
    exact ⟨conjunction_induction leaf conjunction c, forall_mem_induction leaf conjunction cs⟩

end

theorem termsOfAll_eq_flatMap (cs : List Condition) : termsOfAll cs = cs.flatMap terms := by
  induction cs with
  | nil => rfl
  | cons c cs ih => simp [termsOfAll, ih]

theorem terms_conjunction (first second : Condition) (rest : List Condition) :
    (logical .and first second rest).terms = (first :: second :: rest).flatMap terms := by
  simp [terms, termsOfAll_eq_flatMap]

/-- No term of a condition is a conjunction. -/
theorem not_conjunction_of_mem_terms (c : Condition) : ∀ t ∈ c.terms, t.isConjunction = false := by
  induction c using conjunction_induction with
  | leaf c plain => simp [terms_of_not_conjunction plain, plain]
  | conjunction first second rest ih =>
    intro t member
    rw [terms_conjunction, List.mem_flatMap] at member
    obtain ⟨c, inside, member⟩ := member
    exact ih c inside t member

theorem length_terms_pos (c : Condition) : 0 < c.terms.length := by
  induction c using conjunction_induction with
  | leaf c plain => simp [terms_of_not_conjunction plain]
  | conjunction first second rest ih =>
    have := ih first (List.mem_cons_self ..)
    simp only [terms, List.length_append]
    omega

/-- A condition has one term, or is flattened to the conjunction of its terms. -/
theorem flatten_cases (c : Condition) :
    c.terms = [c.flatten] ∨
      ∃ first second rest, c.terms = first :: second :: rest ∧
        c.flatten = logical .and first second rest := by
  have pos := length_terms_pos c
  unfold flatten
  match c.terms, pos with
  | [term], _ => simp [combine]
  | first :: second :: rest, _ => simp [combine]

theorem one_lt_length_terms {c : Condition} (h : c.isConjunction = true) : 1 < c.terms.length := by
  unfold isConjunction at h
  split at h
  · rename_i first second rest
    have := length_terms_pos first
    have := length_terms_pos second
    simp only [terms, List.length_append]
    omega
  · simp at h

theorem isConjunction_of_length_le_one {c : Condition} (h : c.terms.length ≤ 1) :
    c.isConjunction = false := by
  cases conj : c.isConjunction with
  | false => rfl
  | true => exact absurd (one_lt_length_terms conj) (by omega)

theorem length_le_length_termsOfAll : ∀ cs : List Condition, cs.length ≤ (termsOfAll cs).length
  | [] => Nat.le_refl _
  | c :: cs => by
    have := length_terms_pos c
    have := length_le_length_termsOfAll cs
    simp only [termsOfAll, List.length_append, List.length_cons]
    omega

theorem termsOfAll_of_none_conjunction {cs : List Condition}
    (h : ∀ c ∈ cs, c.isConjunction = false) : termsOfAll cs = cs := by
  induction cs with
  | nil => rfl
  | cons c cs ih =>
    rw [termsOfAll, terms_of_not_conjunction (h c (List.mem_cons_self ..)),
      ih fun c m => h c (List.mem_cons_of_mem _ m)]
    rfl

theorem none_conjunction_of_length {cs : List Condition}
    (h : (termsOfAll cs).length ≤ cs.length) : ∀ c ∈ cs, c.isConjunction = false := by
  induction cs with
  | nil => simp
  | cons c cs ih =>
    have atLeast := length_le_length_termsOfAll cs
    simp only [termsOfAll, List.length_append, List.length_cons] at h
    have pos := length_terms_pos c
    intro c' member
    rcases List.mem_cons.1 member with rfl | member
    · exact isConjunction_of_length_le_one (by omega)
    · exact ih (by omega) c' member

theorem isFlat_of_not_conjunction {c : Condition} (h : c.isConjunction = false) :
    c.isFlat = true := by
  unfold isFlat
  split
  · cases h
  · rfl

/-- A flattened condition is flat. -/
theorem isFlat_flatten (c : Condition) : c.flatten.isFlat = true := by
  have plain := not_conjunction_of_mem_terms c
  obtain single | ⟨first, second, rest, shape, flat⟩ := flatten_cases c
  · exact isFlat_of_not_conjunction (plain c.flatten (by simp [single]))
  · rw [shape] at plain
    rw [flat]
    exact List.all_eq_true.2 fun t member => by simp [plain t member]

/-- Flattening changes just the conditions that are not flat. -/
theorem flatten_eq_self_iff {c : Condition} : c.flatten = c ↔ c.isFlat = true := by
  cases conj : c.isConjunction with
  | false =>
    simp [flatten, terms_of_not_conjunction conj, combine, isFlat_of_not_conjunction conj]
  | true =>
    obtain ⟨first, second, rest, rfl⟩ :
        ∃ first second rest, c = logical .and first second rest := by
      unfold isConjunction at conj
      split at conj
      · exact ⟨_, _, _, rfl⟩
      · simp at conj
    have all : (logical .and first second rest).terms = termsOfAll (first :: second :: rest) := by
      simp [terms, termsOfAll]
    constructor
    · intro same
      have sameTerms : termsOfAll (first :: second :: rest) = first :: second :: rest := by
        have := length_le_length_termsOfAll (first :: second :: rest)
        rw [flatten, all] at same
        match shape : termsOfAll (first :: second :: rest) with
        | [] | [_] => simp [shape] at this
        | a :: b :: others =>
          rw [shape] at same
          simpa [combine] using same
      have each := none_conjunction_of_length (Nat.le_of_eq (congrArg List.length sameTerms))
      exact List.all_eq_true.2 fun c m => by simp [each c m]
    · intro flat
      have each : ∀ c ∈ first :: second :: rest, c.isConjunction = false := fun c m => by
        simpa using List.all_eq_true.1 flat c m
      rw [flatten, all, termsOfAll_of_none_conjunction each]
      rfl

end Condition

/-- The condition under which all conditions hold, flattened. -/
def conjunction? (conditions : List Condition) : Option Condition :=
  (Condition.combine .and conditions).map Condition.flatten

end ResourceSql.Sql
