/-
Flattening keeps what a condition says. The leaves of a condition are what stands
in its nested conjunctions and is no conjunction itself. Each has a place there,
given by the positions on the way down, and the terms of the flattened condition
are the leaves in the order of their places (`placedTerms_sorted`,
`mem_placedTerms_iff`). So it has the truth value and the parameters of the
condition (`flatten_keeps`).
-/
import Mathlib.Data.List.Basic
import ResourceSql.Proofs.Evaluation
import ResourceSql.Proofs.Names

namespace ResourceSql.Sql

namespace Condition

/-! ## Leaves -/

/-- The direct terms of a conjunction. -/
def conjuncts : Condition → List Condition
  | logical .and first second rest => first :: second :: rest
  | _ => []

/-- The direct terms of a conjunction, and of any other condition that condition alone. -/
def topTerms (c : Condition) : List Condition := if c.isConjunction then c.conjuncts else [c]

/-- What stands at a place in the nested conjunctions of a condition. A place lists the positions
on the way down. -/
def termAt : Condition → List Nat → Option Condition
  | c, [] => some c
  | c, i :: place => c.conjuncts[i]?.bind fun term => term.termAt place

/-- A condition with its place in a conjunction, from its place in a direct term there. -/
def within (i : Nat) (placed : List Nat × Condition) : List Nat × Condition :=
  (i :: placed.1, placed.2)

mutual

/-- The terms of a condition, each with its place. -/
def placedTerms : Condition → List (List Nat × Condition)
  | logical .and first second rest =>
    first.placedTerms.map (within 0) ++ second.placedTerms.map (within 1) ++ placedFrom 2 rest
  | c => [([], c)]

def placedFrom : Nat → List Condition → List (List Nat × Condition)
  | _, [] => []
  | i, c :: cs => c.placedTerms.map (within i) ++ placedFrom (i + 1) cs

end

theorem conjuncts_of_not_conjunction {c : Condition} (plain : c.isConjunction = false) :
    c.conjuncts = [] := by
  unfold conjuncts
  split
  · cases plain
  · rfl

theorem placedTerms_of_not_conjunction {c : Condition} (plain : c.isConjunction = false) :
    c.placedTerms = [([], c)] := by
  unfold placedTerms
  split
  · cases plain
  · rfl

theorem placedFrom_eq_flatMap (i : Nat) (cs : List Condition) :
    placedFrom i cs = (cs.zipIdx i).flatMap fun entry =>
        entry.1.placedTerms.map (within entry.2) := by
  induction cs generalizing i with
  | nil => rfl
  | cons c cs ih => simp [placedFrom, ih]

theorem placedTerms_conjunction (first second : Condition) (rest : List Condition) :
    (logical .and first second rest).placedTerms =
      (first :: second :: rest).zipIdx.flatMap fun entry =>
        entry.1.placedTerms.map (within entry.2) := by
  rw [← placedFrom_eq_flatMap]
  simp [placedTerms, placedFrom]

/-- Without their places, these are the terms of the condition. -/
theorem map_snd_placedTerms (c : Condition) : c.placedTerms.map Prod.snd = c.terms := by
  induction c using conjunction_induction with
  | leaf c plain => simp [placedTerms_of_not_conjunction plain, terms_of_not_conjunction plain]
  | conjunction first second rest ih =>
    rw [placedTerms_conjunction, terms_conjunction, List.map_flatMap]
    conv_rhs => rw [← List.zipIdx_map_fst 0 (first :: second :: rest), List.flatMap_map]
    apply List.flatMap_congr
    intro entry member
    rw [List.map_map, ← ih entry.1 (List.fst_mem_of_mem_zipIdx member)]
    rfl

/-- Placed terms are the leaves, at their places. -/
theorem mem_placedTerms_iff {c leaf : Condition} {place : List Nat} :
    (place, leaf) ∈ c.placedTerms ↔ c.termAt place = some leaf ∧ leaf.isConjunction = false := by
  induction c using conjunction_induction generalizing place with
  | leaf c plain =>
    rw [placedTerms_of_not_conjunction plain, List.mem_singleton, Prod.mk.injEq]
    cases place with
    | nil =>
      simp only [termAt, Option.some.injEq, true_and]
      constructor
      · intro same
        subst same
        exact ⟨rfl, plain⟩
      · intro found
        exact found.1.symm
    | cons i place => simp [termAt, conjuncts_of_not_conjunction plain]
  | conjunction first second rest ih =>
    rw [placedTerms_conjunction, List.mem_flatMap]
    cases place with
    | nil =>
      simp only [termAt, Option.some.injEq, List.mem_map, within, Prod.mk.injEq, reduceCtorEq,
        false_and, and_false, exists_false, false_iff, not_and]
      intro same
      subst same
      simp [isConjunction]
    | cons i place =>
      simp only [termAt, conjuncts, Option.bind_eq_some_iff, List.mem_map, within, Prod.mk.injEq,
        List.cons.injEq]
      constructor
      · intro h
        obtain ⟨⟨term, j⟩, found, ⟨entry, leaf'⟩, member, ⟨rfl, rfl⟩, rfl⟩ := h
        have found := List.mem_zipIdx_iff_getElem?.1 found
        obtain ⟨inside, plain⟩ := (ih term (List.mem_of_getElem? found)).1 member
        exact ⟨⟨term, found, inside⟩, plain⟩
      · intro h
        obtain ⟨⟨term, found, inside⟩, plain⟩ := h
        exact ⟨(term, i), List.mem_zipIdx_iff_getElem?.2 found, (place, leaf),
          (ih term (List.mem_of_getElem? found)).2 ⟨inside, plain⟩, ⟨rfl, rfl⟩, rfl⟩

/-- Placed terms are in the order of their places. -/
theorem placedTerms_sorted (c : Condition) : c.placedTerms.Pairwise fun a b => a.1 < b.1 := by
  induction c using conjunction_induction with
  | leaf c plain => simp [placedTerms_of_not_conjunction plain]
  | conjunction first second rest ih =>
    rw [placedTerms_conjunction, List.pairwise_flatMap]
    constructor
    · intro entry member
      rw [List.pairwise_map]
      apply (ih entry.1 (List.fst_mem_of_mem_zipIdx member)).imp
      intro a b before
      exact List.cons_lt_cons_self.2 before
    · have ascending : (first :: second :: rest).zipIdx.Pairwise fun a b => a.2 < b.2 := by
        rw [← List.pairwise_map, List.zipIdx_map_snd]
        exact List.pairwise_lt_range'
      apply ascending.imp
      intro a b before x left y right
      obtain ⟨x, -, rfl⟩ := List.mem_map.1 left
      obtain ⟨y, -, rfl⟩ := List.mem_map.1 right
      exact List.cons_lt_cons_iff.2 (.inl before)

/-! ## Values -/

mutual

/-- The truth value of a condition if each of its leaves has one. -/
def valued (leaf : Condition → Truth) : Condition → Truth
  | logical .and first second rest =>
    .all (first.valued leaf :: second.valued leaf :: valuedAll leaf rest)
  | c => leaf c

def valuedAll (leaf : Condition → Truth) : List Condition → List Truth
  | [] => []
  | c :: cs => c.valued leaf :: valuedAll leaf cs

end

section

variable (value : Condition → Truth)

theorem value_terms
    (logical : ∀ first second rest,
      value (.logical .and first second rest) = .all ((first :: second :: rest).map value))
    (c : Condition) : .all (c.terms.map value) = value c := by
  induction c using conjunction_induction with
  | leaf c plain => simp [terms_of_not_conjunction plain, Truth.all]
  | conjunction first second rest ih =>
    rw [terms_conjunction, List.map_flatMap, Truth.all_flatMap, List.map_congr_left ih, logical]

/-- A condition keeps its value, if the value of a conjunction is that of its direct terms
together. -/
theorem value_flatten
    (logical : ∀ first second rest,
      value (.logical .and first second rest) = .all ((first :: second :: rest).map value))
    (c : Condition) : value c.flatten = value c := by
  rw [← value_terms value logical c]
  obtain single | ⟨first, second, rest, shape, flat⟩ := c.flatten_cases
  · rw [single, List.map_singleton, Truth.all, Truth.all, Truth.and_true]
  · rw [flat, shape, logical]

end

theorem valued_flatten (leaf : Condition → Truth) (c : Condition) :
    c.flatten.valued leaf = c.valued leaf := by
  have each (cs : List Condition) : valuedAll leaf cs = cs.map (valued leaf) := by
    induction cs with
    | nil => rfl
    | cons c cs ih => rw [valuedAll, ih, List.map_cons]
  apply value_flatten (valued leaf)
  intro first second rest
  rw [valued, each, List.map_cons, List.map_cons]

/-- A condition holds on the same rows after flattening. -/
theorem truth_flatten {g : Engine} {db : Database} {e : Bound} (c : Condition) :
    c.flatten.truth g db e = c.truth g db e := by
  apply value_flatten fun c => c.truth g db e
  intro first second rest
  rw [truth, truths_eq_map, List.map_cons, List.map_cons]

/-! ## What is kept -/

theorem topTerms_flatten (c : Condition) : c.flatten.topTerms = c.terms := by
  obtain single | ⟨first, second, rest, shape, flat⟩ := c.flatten_cases
  · have plain := not_conjunction_of_mem_terms c c.flatten (by simp [single])
    simp [topTerms, plain, single]
  · simp [topTerms, flat, shape, isConjunction, conjuncts]

/-- The flattened condition consists of the leaves, each once and from left to right, and no
conjunction is one of its terms; it is one leaf alone, or what joins two terms or more. Its value
does not differ, whatever values the leaves have, nor do its parameters; and to flatten it once more
changes nothing. -/
theorem flatten_keeps (c : Condition) :
    (∃ leaves : List (List Nat × Condition),
      leaves.Pairwise (fun a b => a.1 < b.1) ∧
      (∀ place leaf, (place, leaf) ∈ leaves ↔
        c.termAt place = some leaf ∧ leaf.isConjunction = false) ∧
      c.flatten.topTerms = leaves.map Prod.snd) ∧
    c.flatten.isFlat = true ∧
    (c.terms = [c.flatten] ∨ ofTerms .and c.terms = .ok c.flatten) ∧
    (∀ leaf, c.flatten.valued leaf = c.valued leaf) ∧
    (∀ g db e, c.flatten.truth g db e = c.truth g db e) ∧
    (∀ d : Dialect, parametersOf (c.flatten.fragments d) = parametersOf (c.fragments d)) ∧
    c.flatten.flatten = c.flatten := by
  refine ⟨⟨c.placedTerms, placedTerms_sorted c, fun _ _ => mem_placedTerms_iff, ?terms⟩,
    isFlat_flatten c, ?shape, fun leaf => valued_flatten leaf c, fun g db e => truth_flatten c,
    ?parameters, flatten_eq_self_iff.2 (isFlat_flatten c)⟩
  case terms => rw [topTerms_flatten, map_snd_placedTerms]
  case shape =>
    obtain single | ⟨first, second, rest, shape, flat⟩ := c.flatten_cases
    · exact .inl single
    · exact .inr (by rw [shape, flat, ofTerms])
  case parameters =>
    intro d
    exact apply_flatten (f := fun c => parametersOf (c.fragments d)) (parametersOf_logical d .and) c

end Condition

end ResourceSql.Sql
