/-
Identifiers in requests, and the values that are bound for them. An identifier
that is accepted stands for one value of the type of a primary key, which is
never null (`Metadata.Identifies.not_null`), so that whether a primary key that
is not null is among several identifiers is never unknown (`Engine.among_decided`).
-/
import Mathlib.Data.List.Forall2
import ResourceSql.Proofs.Runs

namespace ResourceSql

/-! ## Values that are not null -/

theorem Value.bounded_ne_null {low high : Int} {make : Int → Value} (h : ∀ n, make n ≠ .null)
    (n : Int) : bounded low high make n ≠ some .null := by
  unfold bounded
  split
  · simpa using h n
  · simp

namespace ScalarType

theorem ofInteger?_ne_null (type : ScalarType) (n : Int) : type.ofInteger? n ≠ some .null := by
  cases type with
  | byte | smallint | integer | bigint =>
    simp only [ofInteger?]
    refine Value.bounded_ne_null ?_ n
    simp
  | _ => simp [ofInteger?]

theorem ofNumber?_ne_null (type : ScalarType) (n : JsonNumber) : type.ofNumber? n ≠ some .null := by
  cases type with
  | real | double => simp [ofNumber?]
  | decimal => simp [ofNumber?, decimalOfChars?]
  | _ =>
    cases n with
    | integer n =>
      simp only [ofNumber?]
      exact ofInteger?_ne_null _ n
    | _ => simp [ofNumber?]

theorem ofText?_ne_null (type : ScalarType) (text : String) : type.ofText? text ≠ some .null := by
  have integers : ∀ (found : Option Int) (read : Int → Option Value), (∀ n, read n ≠ some .null) →
      found.bind read ≠ some .null := by
    intro found read h
    cases found with
    | none => simp
    | some n => exact h n
  cases type with
  | byte | smallint | integer | bigint =>
    refine integers _ _ (Value.bounded_ne_null ?_)
    simp
  | _ => simp [ofText?, decimalOfChars?]

theorem literal_ne_null {type : ScalarType} {value : Json} (given : value.isNull = false) :
    type.literal value ≠ .ok .null := by
  intro null
  cases value with
  | null => cases given
  | bool b =>
    by_cases boolean : type = .boolean
    · simp [literal, boolean] at null
    · simp [literal, boolean] at null
  | number n =>
    simp only [literal] at null
    split at null
    · next found =>
      rw [Except.ok.inj null] at found
      exact ofNumber?_ne_null type n found
    · cases null
  | string s =>
    simp only [literal] at null
    split at null
    · next found =>
      rw [Except.ok.inj null] at found
      exact ofText?_ne_null type s found
    · cases null
  | array _ => cases null
  | object _ => cases null

end ScalarType

theorem Attribute.literal_ne_null {a : Attribute} {m : Metadata} {value : Json}
    (given : value.isNull = false) : a.literal m value ≠ .ok .null := by
  intro null
  unfold literal at null
  split at null
  · split at null
    · cases given
    · split at null
      · obtain ⟨declared, -, null⟩ := Except.bind_eq_ok.1 null
        split at null <;> cases null
      · cases null
    · cases null
  · exact ScalarType.literal_ne_null given null

/-! ## Comparisons without null -/

namespace Engine

variable {g : Engine}

theorem compare_null (operator : Comparison) (b : Value) : g.compare operator .null b = .unknown := rfl

theorem compare_ne_unknown {operator : Comparison} {a b : Value} (ha : a.isNull = false)
    (hb : b.isNull = false) : g.compare operator a b ≠ .unknown := by
  simp only [compare, ha, hb, Bool.or_false, Bool.false_eq_true, if_false]
  cases g.holds operator a b <;> simp [Truth.ofBool]

theorem among_eq_true_iff {a : Value} {values : List Value} :
    g.among a values = .true ↔ ∃ v ∈ values, g.compare .equals a v = .true := by
  rw [among, Truth.any_eq_true_iff, List.mem_map]

theorem among_null_ne_true (values : List Value) : g.among .null values ≠ .true := by
  intro found
  obtain ⟨v, -, same⟩ := among_eq_true_iff.1 found
  rw [compare_null] at same
  cases same

theorem among_decided {a : Value} {values : List Value} (ha : a.isNull = false)
    (h : ∀ v ∈ values, v.isNull = false) : g.among a values = .true ∨ g.among a values = .false := by
  have known : g.among a values ≠ .unknown := by
    refine Truth.any_ne_unknown fun t member => ?_
    obtain ⟨v, given, rfl⟩ := List.mem_map.1 member
    exact compare_ne_unknown ha (h v given)
  cases found : g.among a values with
  | true => exact .inl rfl
  | false => exact .inr rfl
  | unknown => exact absurd found known

end Engine

/-! ## Identifiers -/

/-- An identifier of a resource stands for a value. -/
def Metadata.Identifies (m : Metadata) (r : Resource) (id : Json) (value : Value) : Prop :=
  ∃ primaryKey, r.primaryKey = .ok primaryKey ∧ id.isNull = false ∧
    primaryKey.literal m id = .ok value

namespace Metadata.Identifies

variable {m : Metadata} {r : Resource} {id : Json} {value other : Value}

theorem given (h : m.Identifies r id value) : id.isNull = false := by
  obtain ⟨-, -, given, -⟩ := h
  exact given

theorem not_null (h : m.Identifies r id value) : value.isNull = false := by
  obtain ⟨primaryKey, -, given, typed⟩ := h
  cases value with
  | null => exact absurd typed (Attribute.literal_ne_null given)
  | _ => rfl

theorem unique (h : m.Identifies r id value) (h' : m.Identifies r id other) : value = other := by
  obtain ⟨primaryKey, identified, -, typed⟩ := h
  obtain ⟨same, identified', -, typed'⟩ := h'
  obtain rfl := Except.ok.inj (identified.symm.trans identified')
  exact Except.ok.inj (typed.symm.trans typed')

theorem unique_all {ids : List Json} {values others : List Value}
    (h : List.Forall₂ (m.Identifies r) ids values) (h' : List.Forall₂ (m.Identifies r) ids others) :
    values = others := by
  have one : Relator.RightUnique (m.Identifies r) := fun _ _ _ => unique
  exact List.right_unique_forall₂' one h h'

end Metadata.Identifies

theorem forall₂_exists_left {α β : Type} {R : α → β → Prop} {as : List α} {bs : List β}
    (h : List.Forall₂ R as bs) {b : β} (member : b ∈ bs) : ∃ a ∈ as, R a b := by
  induction h with
  | nil => cases member
  | cons first _ ih =>
    rcases List.mem_cons.1 member with rfl | member
    · exact ⟨_, List.mem_cons_self .., first⟩
    · obtain ⟨a, given, related⟩ := ih member
      exact ⟨a, List.mem_cons_of_mem _ given, related⟩

namespace Compile

variable {c : Context} {p q : Progress} {r : Resource}

theorem bindId_eq_ok {id : Json} {parameter : Sql.Parameter} :
    bindId c r id p = .ok parameter q ↔
      ∃ value, c.metadata.Identifies r id value ∧ bindValue value p = .ok parameter q := by
  simp only [bindId, bind_eq_ok, ofExcept_eq_ok, Metadata.Identifies]
  constructor
  · rintro ⟨primaryKey, _, ⟨identified, rfl⟩, run⟩
    cases given : id.isNull with
    | true => simp [given, bind_eq_ok] at run
    | false =>
      simp only [given, Bool.false_eq_true, if_false, bind_eq_ok, ofExcept_eq_ok] at run
      obtain ⟨value, _, ⟨typed, rfl⟩, run⟩ := run
      exact ⟨value, ⟨primaryKey, identified, rfl, typed⟩, run⟩
  · rintro ⟨value, ⟨primaryKey, identified, given, typed⟩, run⟩
    refine ⟨primaryKey, p, ⟨identified, rfl⟩, ?_⟩
    simp only [given, Bool.false_eq_true, if_false, bind_eq_ok, ofExcept_eq_ok]
    exact ⟨value, p, ⟨typed, rfl⟩, run⟩

/-- The value that is bound for an identifier is the one it stands for. -/
theorem bindId_value {id : Json} {parameter : Sql.Parameter}
    (run : bindId c r id p = .ok parameter q) :
    c.metadata.Identifies r id parameter.value ∧ q.memory = p.memory := by
  obtain ⟨value, identifies, bound⟩ := bindId_eq_ok.1 run
  cases bound
  exact ⟨identifies, rfl⟩

end Compile

end ResourceSql
