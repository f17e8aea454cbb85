/-
Two runs side by side. Steps agree if, started from the same progress, they come
to the same progress whenever both of them succeed, with results of which the
same can be seen (`Agree`). Agreement composes over sequences of steps
(`Agree.bind`) and over lists of them (`Agree.forEach`), so that a step on one
literal and the same step on another one are compared part by part.
-/
import ResourceSql.Proofs.Runs

namespace ResourceSql.Compile

section

variable {α α' β β' γ : Type} {seen : α → γ}

/-- Where both steps succeed, they come to the same progress and to results that look the same. -/
structure Agree (seen : α → γ) (x y : Compile α) : Prop where
  of_ok {p q s : Progress} {a b : α} (run : x p = .ok a q) (other : y p = .ok b s) :
    q = s ∧ seen a = seen b

namespace Agree

/-- A step agrees with itself. -/
theorem same {x : Compile α} : Agree seen x x := by
  refine ⟨fun run other => ?_⟩
  rw [run] at other
  cases other
  exact ⟨rfl, rfl⟩

theorem pure {a b : α} (h : seen a = seen b) : Agree seen (Pure.pure a) (Pure.pure b) := by
  refine ⟨fun run other => ?_⟩
  obtain ⟨rfl, rfl⟩ := pure_eq_ok.1 run
  obtain ⟨rfl, rfl⟩ := pure_eq_ok.1 other
  exact ⟨rfl, h⟩

/-- A step that fails agrees with any other one. -/
theorem throw_left {e : RequestError} {y : Compile α} : Agree seen (throw e) y :=
  ⟨fun run => absurd run throw_ne_ok⟩

theorem throw_right {e : RequestError} {x : Compile α} : Agree seen x (throw e) :=
  ⟨fun _ other => absurd other throw_ne_ok⟩

theorem bind {seen' : β → β'} {x y : Compile α} {f g : α → Compile β} (first : Agree seen x y)
    (next : ∀ a b, seen a = seen b → Agree seen' (f a) (g b)) :
    Agree seen' (x >>= f) (y >>= g) := by
  refine ⟨fun run other => ?_⟩
  obtain ⟨a, p₁, ran, run⟩ := bind_eq_ok.1 run
  obtain ⟨b, p₂, also, other⟩ := bind_eq_ok.1 other
  obtain ⟨rfl, alike⟩ := first.of_ok ran also
  exact (next a b alike).of_ok run other

/-- The same step, and steps that agree after it. -/
theorem bind_same {seen' : β → β'} {x : Compile α} {f g : α → Compile β}
    (next : ∀ a, Agree seen' (f a) (g a)) : Agree seen' (x >>= f) (x >>= g) := by
  refine bind (same : Agree id x x) fun a b alike => ?_
  cases alike
  exact next a

/-- Steps that need no progress come to none. -/
theorem ofExcept {x y : Except RequestError α} :
    Agree (fun _ => ()) (Compile.ofExcept x) (Compile.ofExcept y) := by
  refine ⟨fun run other => ?_⟩
  obtain ⟨-, rfl⟩ := ofExcept_eq_ok.1 run
  obtain ⟨-, rfl⟩ := ofExcept_eq_ok.1 other
  exact ⟨rfl, rfl⟩

/-- Results that look the same, or errors. -/
theorem ofExcept_map {x y : Except RequestError α} (alike : x.map seen = y.map seen) :
    Agree seen (Compile.ofExcept x) (Compile.ofExcept y) := by
  refine ⟨fun run other => ?_⟩
  obtain ⟨rfl, rfl⟩ := ofExcept_eq_ok.1 run
  obtain ⟨rfl, rfl⟩ := ofExcept_eq_ok.1 other
  exact ⟨rfl, Except.ok.inj alike⟩

/-- The same choice on both sides. -/
theorem ite {p : Prop} [Decidable p] {x x' y y' : Compile α} (yes : p → Agree seen x y)
    (no : ¬p → Agree seen x' y') : Agree seen (if p then x else x') (if p then y else y') := by
  by_cases h : p
  · rw [if_pos h, if_pos h]
    exact yes h
  · rw [if_neg h, if_neg h]
    exact no h

/-- Steps that are refused under conditions of their own. -/
theorem guard {refused refused' : Bool} {e e' : RequestError} {x y : Compile α}
    (next : refused = false → refused' = false → Agree seen x y) :
    Agree seen (if refused = true then (throw e : Compile PUnit) >>= fun _ => x else x)
      (if refused' = true then (throw e' : Compile PUnit) >>= fun _ => y else y) := by
  cases refused with
  | true => exact ⟨fun run => absurd run throw_ne_ok⟩
  | false =>
    cases refused' with
    | true => exact ⟨fun _ other => absurd other throw_ne_ok⟩
    | false => exact next rfl rfl

/-- Steps that agree still do so in a scope of their own, and join the same tables there. -/
theorem inOwnScope {x y : Compile α} (h : Agree seen x y) :
    Agree (fun made => (seen made.1, made.2)) (Compile.inOwnScope x) (Compile.inOwnScope y) := by
  refine ⟨fun {p q s made made'} run other => ?_⟩
  obtain ⟨a, joins⟩ := made
  obtain ⟨b, joins'⟩ := made'
  obtain ⟨t, ran, rfl, rfl⟩ := inOwnScope_eq_ok.1 run
  obtain ⟨t', also, rfl, rfl⟩ := inOwnScope_eq_ok.1 other
  obtain ⟨rfl, alike⟩ := h.of_ok ran also
  exact ⟨rfl, Prod.ext alike rfl⟩

/-- Steps for the elements of lists that look the same. -/
theorem forEach {hidden : α → α'} {seen : β → γ} {f g : α → Compile β} {as bs : List α}
    (alike : as.map hidden = bs.map hidden)
    (each : ∀ a b, hidden a = hidden b → Agree seen (f a) (g b)) :
    Agree (List.map seen) (Compile.forEach f as) (Compile.forEach g bs) := by
  induction as generalizing bs with
  | nil =>
    cases bs with
    | nil => exact pure rfl
    | cons b bs => cases alike
  | cons a as ih =>
    cases bs with
    | nil => cases alike
    | cons b bs =>
      obtain ⟨head, tail⟩ := List.cons.inj alike
      refine bind (each a b head) fun made made' first => ?_
      refine bind (ih tail) fun rest rest' others => ?_
      exact pure (by rw [List.map_cons, List.map_cons, first, others])

/-- Steps that are done if there is something to do them with. -/
theorem optionally {hidden : α → α'} {seen : β → γ} {f g : α → Compile β} {a? b? : Option α}
    (alike : a?.map hidden = b?.map hidden)
    (each : ∀ a b, hidden a = hidden b → Agree seen (f a) (g b)) :
    Agree (List.map seen) (Compile.optionally f a?) (Compile.optionally g b?) := by
  cases a? with
  | none =>
    cases b? with
    | none => exact pure rfl
    | some b => cases alike
  | some a =>
    cases b? with
    | none => cases alike
    | some b =>
      refine bind (each a b (Option.some.inj alike)) fun made made' first => ?_
      exact pure (by rw [List.map_singleton, List.map_singleton, first])

end Agree

end

end ResourceSql.Compile
