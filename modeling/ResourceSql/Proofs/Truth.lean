/-
The truth values of conditions. A comparison with null is unknown; negation
keeps the unknown, a conjunction is as true as its least true term, a
disjunction as its most true one. What a connective does to many terms does not
depend on how they are grouped (`all_append`, `any_append`).
-/
import ResourceSql.Operator

namespace ResourceSql

inductive Truth where
  | false
  | unknown
  | true
  deriving DecidableEq

namespace Truth

def ofBool : Bool → Truth
  | .true => true
  | .false => false

def not : Truth → Truth
  | true => false
  | unknown => unknown
  | false => true

def and : Truth → Truth → Truth
  | true, b => b
  | false, _ => false
  | unknown, false => false
  | unknown, _ => unknown

def or : Truth → Truth → Truth
  | false, b => b
  | true, _ => true
  | unknown, true => true
  | unknown, _ => unknown

/-- All terms together hold. -/
def all : List Truth → Truth
  | [] => true
  | t :: ts => t.and (all ts)

/-- One of the terms holds. -/
def any : List Truth → Truth
  | [] => false
  | t :: ts => t.or (any ts)

/-- Terms joined by a connective. -/
def joined : Connective → List Truth → Truth
  | .and => all
  | .or => any

theorem and_assoc (a b c : Truth) : (a.and b).and c = a.and (b.and c) := by
  cases a <;> cases b <;> cases c <;> rfl

@[simp] theorem and_true (a : Truth) : a.and true = a := by cases a <;> rfl

@[simp] theorem or_false (a : Truth) : a.or false = a := by cases a <;> rfl

theorem and_eq_true_iff {a b : Truth} : a.and b = true ↔ a = true ∧ b = true := by
  cases a <;> cases b <;> simp [and]

theorem or_eq_true_iff {a b : Truth} : a.or b = true ↔ a = true ∨ b = true := by
  cases a <;> cases b <;> simp [or]

theorem any_eq_true_iff {ts : List Truth} : any ts = true ↔ true ∈ ts := by
  induction ts with
  | nil => simp [any]
  | cons t ts ih => rw [any, or_eq_true_iff, ih, List.mem_cons, eq_comm]

theorem any_ne_unknown {ts : List Truth} (h : ∀ t ∈ ts, t ≠ unknown) : any ts ≠ unknown := by
  induction ts with
  | nil => simp [any]
  | cons t ts ih =>
    obtain ⟨first, rest⟩ := List.forall_mem_cons.1 h
    have := ih rest
    cases t <;> simp_all [any, or]

theorem any_ne_false {ts : List Truth} (h : unknown ∈ ts) : any ts ≠ false := by
  induction ts with
  | nil => cases h
  | cons t ts ih =>
    rcases List.mem_cons.1 h with rfl | member
    · cases rest : any ts <;> simp [any, or, rest]
    · have := ih member
      cases t <;> cases rest : any ts <;> simp_all [any, or]

theorem ofBool_eq_true_iff {b : Bool} : ofBool b = true ↔ b = .true := by
  cases b <;> simp [ofBool]

theorem all_append (as bs : List Truth) : all (as ++ bs) = (all as).and (all bs) := by
  induction as with
  | nil => rfl
  | cons a as ih => rw [List.cons_append, all, all, ih, and_assoc]

theorem all_flatMap {α : Type} {f : α → List Truth} {as : List α} :
    all (as.flatMap f) = all (as.map fun a => all (f a)) := by
  induction as with
  | nil => rfl
  | cons a as ih => rw [List.flatMap_cons, all_append, ih, List.map_cons, all]

end Truth

end ResourceSql
