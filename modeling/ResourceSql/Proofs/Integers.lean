/-
Integers as numbers and as texts. A text denotes an integer if it is a decimal with at
most one sign before it (`Denotes`), leading zeros included. For the integer types such
a text means what the JSON number does that it denotes: the value that holds the integer
if the type has it, and a mismatch if not (`ScalarType.literal_integer`). The number and
the text are converted on ways of their own; both come to `ScalarType.ofInteger?`.
-/
import Mathlib.Data.List.Induction
import Mathlib.Data.Nat.Digits.Defs
import ResourceSql.Proofs.ValueTypes

namespace ResourceSql

/-! ## Decimals -/

namespace Digits

/-- The number that digits denote by their places. -/
def value (digits : List Char) : Nat := Nat.ofDigits 10 (digits.reverse.map digitValue)

theorem toNat_eq_value (digits : List Char) : toNat digits = value digits := by
  induction digits using List.reverseRecOn with
  | nil => rfl
  | append_singleton digits c ih =>
    have front : value (digits ++ [c]) = digitValue c + 10 * value digits := by
      rw [value, List.reverse_concat, List.map_cons, Nat.ofDigits_cons]
      rfl
    rw [toNat_append_singleton, ih, front]
    omega

theorem natural?_eq_some_iff {digits : List Char} {n : Nat} :
    natural? digits = some n ↔
      digits ≠ [] ∧ (∀ c ∈ digits, c.isDigit = true) ∧ n = value digits := by
  unfold natural?
  by_cases decimal : digits ≠ [] ∧ digits.all Char.isDigit = true
  · rw [if_pos decimal, toNat_eq_value, Option.some.injEq]
    exact ⟨fun same => ⟨decimal.1, List.all_eq_true.1 decimal.2, same.symm⟩, fun h => h.2.2.symm⟩
  · rw [if_neg decimal]
    constructor
    · intro found
      cases found
    · intro h
      exact absurd ⟨h.1, List.all_eq_true.2 h.2.1⟩ decimal

/-- One or more decimal digits, behind at most one sign. Only signed numbers may carry a minus. -/
inductive Denotes (signed : Bool) : List Char → Int → Prop
  | plain {digits} : digits ≠ [] → (∀ c ∈ digits, c.isDigit = true) →
    Denotes signed digits (value digits)
  | plus {digits} : digits ≠ [] → (∀ c ∈ digits, c.isDigit = true) →
    Denotes signed ('+' :: digits) (value digits)
  | minus {digits} : signed = true → digits ≠ [] → (∀ c ∈ digits, c.isDigit = true) →
    Denotes signed ('-' :: digits) (-value digits)

theorem integer?_eq_some_iff {signed : Bool} {text : List Char} {n : Int} :
    integer? signed text = some n ↔ Denotes signed text n := by
  constructor
  · intro found
    unfold integer? at found
    split at found
    · obtain ⟨n, read, rfl⟩ := Option.map_eq_some_iff.1 found
      obtain ⟨some, each, rfl⟩ := natural?_eq_some_iff.1 read
      exact .plus some each
    · split at found
      · next minus =>
        obtain ⟨n, read, rfl⟩ := Option.map_eq_some_iff.1 found
        obtain ⟨some, each, rfl⟩ := natural?_eq_some_iff.1 read
        exact .minus minus some each
      · cases found
    · obtain ⟨n, read, rfl⟩ := Option.map_eq_some_iff.1 found
      obtain ⟨some, each, rfl⟩ := natural?_eq_some_iff.1 read
      exact .plain some each
  · intro denotes
    cases denotes with
    | @plain digits some each =>
      have plain : integer? signed text = (natural? text).map Int.ofNat := by
        unfold integer?
        split
        · next rest => exact absurd (each '+' (List.mem_cons_self ..)) (by decide)
        · next rest => exact absurd (each '-' (List.mem_cons_self ..)) (by decide)
        · rfl
      rw [plain, natural?_eq_some_iff.2 ⟨some, each, rfl⟩]
      rfl
    | plus some each =>
      rw [integer?, natural?_eq_some_iff.2 ⟨some, each, rfl⟩]
      rfl
    | minus minus some each =>
      rw [integer?, if_pos minus, natural?_eq_some_iff.2 ⟨some, each, rfl⟩]
      rfl

theorem digit_eq_digitChar {d : Nat} (h : d < 10) : digit d = d.digitChar := by
  have all : ∀ d, d < 10 → digit d = d.digitChar := by decide
  exact all d h

theorem ofNat_eq_toDigits (n : Nat) : ofNat n = Nat.toDigits 10 n := by
  unfold ofNat
  split
  · next small => rw [Nat.toDigits_of_lt_base small, digit_eq_digitChar small]
  · next large =>
    rw [ofNat_eq_toDigits (n / 10), digit_eq_digitChar (Nat.mod_lt n (by decide)),
      Nat.toDigits_of_base_le (by decide) (Nat.not_lt.1 large)]
termination_by n
decreasing_by omega

theorem integer?_ofNat (signed : Bool) (n : Nat) :
    integer? signed (ofNat n) = some (Int.ofNat n) := by
  refine integer?_eq_some_iff.2 ?_
  have read := natural?_eq_some_iff.1 (natural?_ofNat n)
  have denotes : Denotes signed (ofNat n) (value (ofNat n)) := .plain read.1 read.2.1
  rwa [← read.2.2] at denotes

/-- A negative integer is read from its text if the sign is allowed. -/
theorem integer?_toString (signed : Bool) (n : Int) :
    integer? signed (toString n).toList = if signed = true ∨ 0 ≤ n then some n else none := by
  cases n with
  | ofNat n =>
    have text : (toString (Int.ofNat n)).toList = ofNat n :=
      Nat.toList_repr.trans (ofNat_eq_toDigits n).symm
    rw [text, integer?_ofNat, if_pos (.inr (Int.natCast_nonneg n))]
  | negSucc n =>
    have text : (toString (Int.negSucc n)).toList = '-' :: ofNat (n + 1) := by
      show ("-" ++ (n + 1).repr).toList = _
      rw [String.toList_append, Nat.toList_repr, ofNat_eq_toDigits]
      rfl
    rw [text, integer?, natural?_ofNat]
    cases signed with
    | true => rfl
    | false => rw [if_neg (by simp), if_neg (by simp)]

end Digits

/-! ## The integers of a type -/

/-- How wide the integers of a type are, and whether some are negative. -/
structure IntegerFormat where
  signed : Bool
  bits : Nat

/-- An integer is one of those of a format. -/
def IntegerFormat.Fits (f : IntegerFormat) (n : Int) : Prop :=
  if f.signed then -2 ^ (f.bits - 1) ≤ n ∧ n < 2 ^ (f.bits - 1) else 0 ≤ n ∧ n < 2 ^ f.bits

instance (f : IntegerFormat) (n : Int) : Decidable (f.Fits n) :=
  inferInstanceAs (Decidable (if f.signed then _ else _))

theorem IntegerFormat.Fits.allowed {f : IntegerFormat} {n : Int} (fits : f.Fits n) :
    f.signed = true ∨ 0 ≤ n := by
  unfold Fits at fits
  split at fits
  · next signed => exact .inl signed
  · exact .inr fits.1

/-- The integer that a value holds. -/
def Value.heldInteger? : Value → Option Int
  | byte n => some n.toNat
  | signedByte n => some n.toInt
  | int16 n => some n.toInt
  | int32 n => some n.toInt
  | int64 n => some n.toInt
  | uint16 n => some n.toNat
  | uint32 n => some n.toNat
  | uint64 n => some n.toNat
  | _ => none

namespace ScalarType

/-- The format of the integer types. -/
def integerFormat? : ScalarType → Option IntegerFormat
  | byte => some ⟨false, 8⟩
  | smallint => some ⟨true, 16⟩
  | integer => some ⟨true, 32⟩
  | bigint => some ⟨true, 64⟩
  | _ => none

variable {type : ScalarType} {format : IntegerFormat} {n : Int}

theorem ofInteger?_of_fits (whole : type.integerFormat? = some format) (fits : format.Fits n) :
    ∃ v, type.ofInteger? n = some v ∧ type.holds v = true ∧ v.heldInteger? = some n := by
  cases type <;> cases whole <;> simp only [IntegerFormat.Fits] at fits
  case byte =>
    obtain ⟨lower, upper⟩ : 0 ≤ n ∧ n < 256 := fits
    obtain ⟨k, rfl⟩ := Int.eq_ofNat_of_zero_le lower
    refine ⟨.byte (UInt8.ofNat k), if_pos (by omega), rfl, ?_⟩
    rw [Value.heldInteger?, UInt8.toNat_ofNat_of_lt' (Int.ofNat_lt.1 upper)]
  case smallint =>
    obtain ⟨lower, upper⟩ : -2 ^ 15 ≤ n ∧ n < 2 ^ 15 := fits
    refine ⟨.int16 (Int16.ofInt n), if_pos ⟨lower, Int.le_sub_one_of_lt upper⟩, rfl, ?_⟩
    rw [Value.heldInteger?, Int16.toInt_ofInt_of_le lower upper]
  case integer =>
    obtain ⟨lower, upper⟩ : -2 ^ 31 ≤ n ∧ n < 2 ^ 31 := fits
    refine ⟨.int32 (Int32.ofInt n), if_pos ⟨lower, Int.le_sub_one_of_lt upper⟩, rfl, ?_⟩
    rw [Value.heldInteger?, Int32.toInt_ofInt_of_le lower upper]
  case bigint =>
    obtain ⟨lower, upper⟩ : -2 ^ 63 ≤ n ∧ n < 2 ^ 63 := fits
    refine ⟨.int64 (Int64.ofInt n), if_pos ⟨lower, Int.le_sub_one_of_lt upper⟩, rfl, ?_⟩
    rw [Value.heldInteger?, Int64.toInt_ofInt_of_le lower upper]

theorem ofInteger?_of_not_fits (whole : type.integerFormat? = some format)
    (exceeds : ¬ format.Fits n) : type.ofInteger? n = none := by
  cases type <;> cases whole <;> refine if_neg fun within => exceeds ?_
  case byte =>
    show 0 ≤ n ∧ n < 256
    omega
  all_goals exact ⟨within.1, Int.lt_of_le_sub_one within.2⟩

theorem ofText?_eq (whole : type.integerFormat? = some format) (text : String) :
    type.ofText? text = (Digits.integer? format.signed text.toList).bind type.ofInteger? := by
  cases type <;> cases whole <;> rfl

theorem ofNumber?_eq (whole : type.integerFormat? = some format) (n : Int) :
    type.ofNumber? (.integer n) = type.ofInteger? n := by
  cases type <;> cases whole <;> rfl

theorem literal_number (whole : type.integerFormat? = some format) (n : Int) :
    type.literal (.number (.integer n)) =
      match type.ofInteger? n with
      | some v => .ok v
      | none => .error (.typeMismatch (.number (.integer n)) type) := by
  show (match type.ofNumber? (.integer n) with
    | some v => Except.ok v
    | none => _) = _
  rw [ofNumber?_eq whole]

theorem literal_text (whole : type.integerFormat? = some format) (text : String) :
    type.literal (.string text) =
      match (Digits.integer? format.signed text.toList).bind type.ofInteger? with
      | some v => .ok v
      | none => .error (.typeMismatch (.string text) type) := by
  show (match type.ofText? text with
    | some v => Except.ok v
    | none => _) = _
  rw [ofText?_eq whole]

/-- A text that denotes an integer of the type is read as the integer. -/
theorem literal_of_denotes (whole : type.integerFormat? = some format) {text : String}
    (denotes : Digits.Denotes format.signed text.toList n) (fits : format.Fits n) :
    type.literal (.string text) = type.literal (.number (.integer n)) := by
  obtain ⟨v, converted, -, -⟩ := ofInteger?_of_fits whole fits
  rw [literal_text whole, literal_number whole, Digits.integer?_eq_some_iff.2 denotes,
    Option.bind_some, converted]

theorem literal_text_isOk_iff (whole : type.integerFormat? = some format) (text : String) :
    (∃ v, type.literal (.string text) = .ok v) ↔
      ∃ n, Digits.Denotes format.signed text.toList n ∧ format.Fits n := by
  constructor
  · intro read
    obtain ⟨v, read⟩ := read
    rw [literal_text whole] at read
    split at read
    · next found =>
      obtain ⟨n, denoted, converted⟩ := Option.bind_eq_some_iff.1 found
      refine ⟨n, Digits.integer?_eq_some_iff.1 denoted, Decidable.by_contra fun exceeds => ?_⟩
      rw [ofInteger?_of_not_fits whole exceeds] at converted
      cases converted
    · cases read
  · intro h
    obtain ⟨n, denotes, fits⟩ := h
    obtain ⟨v, converted, -, -⟩ := ofInteger?_of_fits whole fits
    exact ⟨v, by rw [literal_of_denotes whole denotes fits, literal_number whole, converted]⟩

/-- **An integer means the same as a number and as a text.** Both are read as the value of the type
that holds the integer, or both are mismatches, just as the type has the integer or not. The texts
that are read are those that denote an integer of the type. -/
theorem literal_integer (whole : type.integerFormat? = some format) :
    (∀ n : Int,
      (format.Fits n ∧ ∃ v, type.literal (.number (.integer n)) = .ok v ∧
        type.literal (.string (toString n)) = .ok v ∧
        type.holds v = true ∧ v.heldInteger? = some n) ∨
      (¬ format.Fits n ∧
        type.literal (.number (.integer n)) = .error (.typeMismatch (.number (.integer n)) type) ∧
        type.literal (.string (toString n)) = .error (.typeMismatch (.string (toString n)) type))) ∧
    ∀ text : String,
      ((∃ v, type.literal (.string text) = .ok v) ↔
        ∃ n, Digits.Denotes format.signed text.toList n ∧ format.Fits n) ∧
      ∀ n, Digits.Denotes format.signed text.toList n → format.Fits n →
        type.literal (.string text) = type.literal (.number (.integer n)) := by
  refine ⟨fun n => ?_, fun text => ⟨literal_text_isOk_iff whole text, fun n denotes fits => ?_⟩⟩
  · by_cases fits : format.Fits n
    · left
      obtain ⟨v, converted, holds, held⟩ := ofInteger?_of_fits whole fits
      have number : type.literal (.number (.integer n)) = .ok v := by
        rw [literal_number whole, converted]
      have denotes : Digits.Denotes format.signed (toString n).toList n :=
        Digits.integer?_eq_some_iff.1 (by rw [Digits.integer?_toString, if_pos fits.allowed])
      exact ⟨fits, v, number, (literal_of_denotes whole denotes fits).trans number, holds, held⟩
    · right
      have none := ofInteger?_of_not_fits whole fits
      refine ⟨fits, ?_, ?_⟩
      · rw [literal_number whole, none]
      · have unread : (Digits.integer? format.signed (toString n).toList).bind type.ofInteger? =
            Option.none := by
          rw [Digits.integer?_toString]
          split
          · exact none
          · rfl
        rw [literal_text whole, unread]
  · exact literal_of_denotes whole denotes fits

/-- A number between the greatest values of the signed and the unsigned integers of 64 bits, and a
text with a sign and leading zeros. -/
theorem literal_integer_bigint :
    let number := Json.number (.integer 9223372036854775808)
    let text := Json.string "9223372036854775808"
    bigint.integerFormat? = some ⟨true, 64⟩ ∧
      bigint.literal number = .error (.typeMismatch number bigint) ∧
      bigint.literal text = .error (.typeMismatch text bigint) ∧
      Digits.Denotes true "+007".toList 7 ∧
      bigint.literal (.string "+007") = bigint.literal (.number (.integer 7)) := by
  have whole : bigint.integerFormat? = some ⟨true, 64⟩ := rfl
  have exceeds : ¬ IntegerFormat.Fits ⟨true, 64⟩ 9223372036854775808 := by decide +kernel
  have printed : toString (9223372036854775808 : Int) = "9223372036854775808" := by decide +kernel
  have digits : Digits.Denotes true ('+' :: ['0', '0', '7']) (Digits.value ['0', '0', '7']) :=
    .plus (by decide) (List.all_eq_true.1 (by decide))
  have denotes : Digits.Denotes true "+007".toList 7 := digits
  obtain ⟨numbers, texts⟩ := literal_integer whole
  rcases numbers 9223372036854775808 with ⟨fits, -⟩ | ⟨-, number, text⟩
  · exact absurd fits exceeds
  · rw [printed] at text
    exact ⟨whole, number, text, denotes, (texts "+007").2 7 denotes (by decide)⟩

end ScalarType

end ResourceSql
