/-
Decimal digits: the digits of a natural number, the number that digits denote,
and the integers that a text denotes. Written digits read back
(`toNat_ofNat`), are digits only (`isDigit_of_mem_ofNat`) and are never empty
(`ofNat_ne_nil`).
-/

namespace ResourceSql.Digits

/-- The digit for a number below ten. -/
def digit (d : Nat) : Char := Char.ofNat ('0'.toNat + d)

/-- The number that a digit stands for. -/
def digitValue (c : Char) : Nat := c.toNat - '0'.toNat

/-- The digits of a number, without leading zeros. -/
def ofNat (n : Nat) : List Char :=
  if n < 10 then [digit n] else ofNat (n / 10) ++ [digit (n % 10)]
termination_by n

/-- The number that digits denote; leading zeros count for nothing. -/
def toNat (digits : List Char) : Nat :=
  digits.foldl (fun n c => 10 * n + digitValue c) 0

/-- An integer: a minus sign before the digits of a negative one. -/
def ofInt : Int → List Char
  | .ofNat n => ofNat n
  | .negSucc n => '-' :: ofNat (n + 1)

/-- A text of one or more digits and nothing else. -/
def natural? (text : List Char) : Option Nat :=
  if text ≠ [] ∧ text.all Char.isDigit then some (toNat text) else none

/-- Digits after at most one sign. Only signed numbers may carry a minus, also before a zero. -/
def integer? (signed : Bool) : List Char → Option Int
  | '+' :: digits => (natural? digits).map Int.ofNat
  | '-' :: digits => if signed then (natural? digits).map (fun n => -Int.ofNat n) else none
  | digits => (natural? digits).map Int.ofNat

/-! ## Reading back what was written -/

theorem digitValue_digit {d : Nat} (h : d < 10) : digitValue (digit d) = d := by
  have all : ∀ d, d < 10 → digitValue (digit d) = d := by decide
  exact all d h

theorem isDigit_digit {d : Nat} (h : d < 10) : (digit d).isDigit = true := by
  have all : ∀ d, d < 10 → (digit d).isDigit = true := by decide
  exact all d h

theorem ofNat_ne_nil (n : Nat) : ofNat n ≠ [] := by
  unfold ofNat
  split <;> simp

theorem isDigit_of_mem_ofNat {n : Nat} {c : Char} (h : c ∈ ofNat n) : c.isDigit = true := by
  unfold ofNat at h
  split at h
  · rename_i small
    obtain rfl := List.mem_singleton.1 h
    exact isDigit_digit small
  · rcases List.mem_append.1 h with h | h
    · exact isDigit_of_mem_ofNat h
    · obtain rfl := List.mem_singleton.1 h
      exact isDigit_digit (Nat.mod_lt n (by decide))
termination_by n
decreasing_by omega

theorem toNat_append_singleton (digits : List Char) (c : Char) :
    toNat (digits ++ [c]) = 10 * toNat digits + digitValue c := by
  simp [toNat]

theorem toNat_ofNat (n : Nat) : toNat (ofNat n) = n := by
  unfold ofNat
  split
  · rename_i small
    simpa [toNat] using digitValue_digit small
  · rw [toNat_append_singleton, toNat_ofNat (n / 10), digitValue_digit (Nat.mod_lt n (by decide))]
    omega
termination_by n
decreasing_by omega

theorem natural?_ofNat (n : Nat) : natural? (ofNat n) = some n := by
  unfold natural?
  rw [if_pos ⟨ofNat_ne_nil n, List.all_eq_true.2 fun _ h => isDigit_of_mem_ofNat h⟩, toNat_ofNat]

end ResourceSql.Digits
