/-
Steps that end the same way from different progress. What is remembered never
shows in what a step gives, and where a statement begins, the number of the
parameters before it does not either. A step is steady if it gives the same value
or the same error from all progress that looks alike, and leaves progress that
looks alike (`Steady`). Steadiness composes over sequences of steps
(`Steady.bind`) and over lists of them (`Steady.forEach`).
-/
import ResourceSql.Proofs.Writes

namespace ResourceSql

/-- Both remember foreign keys as they are resolved, and the same is seen of them. -/
structure Progress.Level {γ : Type} (m : Metadata) (view : Progress → γ) (p q : Progress) :
    Prop where
  left : p.Remembers m
  right : q.Remembers m
  same : view p = view q

theorem Progress.Level.symm {γ : Type} {m : Metadata} {view : Progress → γ} {p q : Progress}
    (level : p.Level m view q) : q.Level m view p := ⟨level.right, level.left, level.same.symm⟩

/-- A view that shows how many parameters there are, and not what is remembered. -/
structure Progress.Counting {γ : Type} (view : Progress → γ) : Prop where
  forgetful : ∀ p memory, view { p with memory } = view p
  parameters : ∀ {p q}, view p = view q → p.parameters = q.parameters
  counted : ∀ {p q} n, view p = view q →
    view { p with parameters := n } = view { q with parameters := n }

/-- What is seen before a statement shows all that matters once its parameters are set back. -/
def Progress.Restarts {γ δ : Type} (before : Progress → γ) (after : Progress → δ) : Prop :=
  ∀ p q, before p = before q →
    after { p with parameters := 0 } = after { q with parameters := 0 }

namespace Compile

section

variable {α β γ δ ε : Type} {m : Metadata} {u : Progress → γ} {v : Progress → δ}
  {w : Progress → ε} {x : Compile α}

/-- The same value from steps that leave progress on one level, or the same error. -/
inductive SameEnd (m : Metadata) (view : Progress → γ) :
    EStateM.Result RequestError Progress α → EStateM.Result RequestError Progress α → Prop where
  | ok {a : α} {p q : Progress} (level : p.Level m view q) : SameEnd m view (.ok a p) (.ok a q)
  | error {e : RequestError} {p q : Progress} : SameEnd m view (.error e p) (.error e q)

namespace SameEnd

theorem cases {left right : EStateM.Result RequestError Progress α}
    (ended : SameEnd m u left right) :
    (∃ a p q, left = .ok a p ∧ right = .ok a q ∧ p.Level m u q) ∨
      ∃ e p q, left = .error e p ∧ right = .error e q := by
  cases ended with
  | ok level => exact .inl ⟨_, _, _, rfl, rfl, level⟩
  | error => exact .inr ⟨_, _, _, rfl, rfl⟩

theorem result_eq {y : Compile α} (ended : SameEnd m u (x .start) (y .start)) :
    x.result = y.result := by
  unfold Compile.result
  obtain ⟨a, p, q, run, run', -⟩ | ⟨e, p, q, run, run'⟩ := ended.cases
  · rw [run, run']
  · rw [run, run']

end SameEnd

/-- From progress on one level, the step ends the same way. -/
structure Steady (m : Metadata) (before : Progress → γ) (after : Progress → δ) (x : Compile α) :
    Prop where
  runs {p q : Progress} (level : p.Level m before q) : SameEnd m after (x p) (x q)

namespace Steady

theorem pure (a : α) : Steady m u u (Pure.pure a) := ⟨fun level => .ok level⟩

theorem throw (e : RequestError) : Steady m u v (MonadExcept.throw e : Compile α) :=
  ⟨fun _ => .error⟩

theorem ofExcept (x : Except RequestError α) : Steady m u u (Compile.ofExcept x) := by
  cases x with
  | ok a => exact pure a
  | error e => exact throw e

theorem bind {f : α → Compile β} (first : Steady m u v x) (next : ∀ a, Steady m v w (f a)) :
    Steady m u w (x >>= f) := by
  refine ⟨fun {p q} level => ?_⟩
  obtain ⟨a, p₁, q₁, run, run', level⟩ | ⟨e, p₁, q₁, run, run'⟩ := (first.runs level).cases
  · rw [bind_of_ok run, bind_of_ok run']
    exact (next a).runs level
  · rw [bind_of_error run, bind_of_error run']
    exact .error

theorem ite {p : Prop} [Decidable p] {y : Compile α} (yes : p → Steady m u v x)
    (no : ¬p → Steady m u v y) : Steady m u v (if p then x else y) := by
  by_cases h : p
  · rw [if_pos h]
    exact yes h
  · rw [if_neg h]
    exact no h

theorem guard {refused : Bool} {e : RequestError} (next : Steady m u v x) :
    Steady m u v
      (if refused = true then (MonadExcept.throw e : Compile PUnit) >>= fun _ => x else x) := by
  cases refused with
  | true => exact bind (v := u) (throw e) fun _ => next
  | false => exact next

theorem forEach {step : α → Compile β} (each : ∀ a, Steady m u u (step a)) (given : List α) :
    Steady m u u (Compile.forEach step given) := by
  induction given with
  | nil => exact pure []
  | cons a given ih => exact bind (each a) fun b => bind ih fun bs => pure (b :: bs)

/-- A step succeeds with the same value from all progress on one level. -/
theorem ok_of_level {p q p' : Progress} {a : α} (steady : Steady m u v x) (level : p.Level m u q)
    (run : x p = .ok a p') : p'.Remembers m ∧ ∃ q', x q = .ok a q' := by
  obtain ⟨b, p₁, q₁, same, run', level⟩ | ⟨e, p₁, q₁, failed, -⟩ := (steady.runs level).cases
  · rw [run] at same
    cases same
    exact ⟨level.left, q₁, run'⟩
  · rw [run] at failed
    cases failed

/-- A list of steps succeeds, from whatever progress, just if each of its steps would succeed on
its own. -/
theorem forEach_eq_ok_iff {step : α → Compile β} (each : ∀ a, Steady m (fun _ => ()) v (step a))
    {p : Progress} (remembers : p.Remembers m) {given : List α} {made : List β} :
    (∃ q, Compile.forEach step given p = .ok made q) ↔
      List.Forall₂ (fun a b => (step a).result = .ok b) given made := by
  have start := Progress.remembers_start m
  induction given generalizing made p with
  | nil =>
    rw [List.forall₂_nil_left_iff]
    constructor
    · intro h
      obtain ⟨q, run⟩ := h
      exact (pure_eq_ok.1 run).1.symm
    · intro none
      exact ⟨p, pure_eq_ok.2 ⟨none.symm, rfl⟩⟩
  | cons a given ih =>
    rw [List.forall₂_cons_left_iff]
    simp only [Compile.forEach, bind_eq_ok, pure_eq_ok, result_ok]
    constructor
    · intro h
      obtain ⟨q, b, p₁, first, bs, p₂, rest, same, -⟩ := h
      obtain ⟨remembers', q', alone⟩ := (each a).ok_of_level ⟨remembers, start, rfl⟩ first
      have all := (ih remembers').1 ⟨p₂, rest⟩
      simp only [result_ok] at all
      exact ⟨b, bs, ⟨q', alone⟩, all, same.symm⟩
    · intro h
      obtain ⟨b, bs, ⟨q', alone⟩, all, same⟩ := h
      obtain ⟨-, p₁, first⟩ := (each a).ok_of_level ⟨start, remembers, rfl⟩ alone
      have remembers' := ((each a).ok_of_level ⟨remembers, start, rfl⟩ first).1
      simp only [result_ok] at ih
      obtain ⟨p₂, rest⟩ := (ih remembers').2 all
      exact ⟨p₂, b, p₁, first, bs, p₂, rest, same.symm, rfl⟩

end Steady

end

section

variable {γ δ : Type} {c : Context} {u : Progress → γ} {v : Progress → δ}

/-- What is looked up is the same, remembered or not. -/
theorem steady_foreignKey (forgetful : ∀ p memory, u { p with memory } = u p) {declaring : Resource}
    (found : c.metadata.findResource declaring.name = .ok declaring) (relationship : String) :
    Steady c.metadata u u (foreignKey c.metadata declaring relationship) := by
  refine ⟨fun {p q} level => ?_⟩
  obtain ⟨memory, remembers, looked⟩ := foreignKey_apply level.left found relationship
  obtain ⟨memory', remembers', looked'⟩ := foreignKey_apply level.right found relationship
  rw [looked, looked']
  cases ForeignKey.resolve c.metadata declaring relationship with
  | ok key =>
    have same := (forgetful p memory).trans (level.same.trans (forgetful q memory').symm)
    exact .ok ⟨remembers, remembers', same⟩
  | error e => exact .error

theorem steady_startStatement (restarts : Progress.Restarts u v) :
    Steady c.metadata u v startStatement :=
  ⟨fun level => .ok ⟨level.left, level.right, restarts _ _ level.same⟩⟩

theorem steady_bindValue (counting : Progress.Counting u) (value : Value) :
    Steady c.metadata u u (bindValue value) := by
  refine ⟨fun {p q} level => ?_⟩
  rw [bindValue_apply, bindValue_apply, counting.parameters level.same]
  exact .ok ⟨level.left, level.right, counting.counted _ level.same⟩

theorem steady_bindId (counting : Progress.Counting u) (resource : Resource) (id : Json) :
    Steady c.metadata u u (bindId c resource id) :=
  .bind (.ofExcept _) fun _ => .guard (.bind (.ofExcept _) fun _ => steady_bindValue counting _)

end

end Compile

end ResourceSql
