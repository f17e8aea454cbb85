/-
JSON values. A number is either an integer or a binary floating-point number,
as its text decides: `1` and `1.0` are different values. The members of an
object are kept in a list; an object that was read has each name once, in
ascending order, and one that is to be written has them in the order of writing.
-/
import ResourceSql.Number.Binary
import ResourceSql.NameMap

namespace ResourceSql

inductive JsonNumber where
  | integer (n : Int)
  | double (x : Double)
  /-- A number of single precision; no text is read as one. -/
  | single (x : Single)
  deriving DecidableEq

inductive Json where
  | null
  | bool (value : Bool)
  | number (value : JsonNumber)
  | string (value : String)
  | array (items : List Json)
  | object (members : List (String × Json))

namespace Json

def ofInt (n : Int) : Json := .number (.integer n)

def ofNat (n : Nat) : Json := .number (.integer n)

/-- There is no text for an infinite number: null stands for it. -/
def ofDouble (x : Double) : Json := if x.isInfinite then .null else .number (.double x)

def ofSingle (x : Single) : Json := if x.isInfinite then .null else .number (.single x)

def ofOption {α : Type} (f : α → Json) : Option α → Json
  | none => .null
  | some a => f a

def strings (items : List String) : Json := .array (items.map .string)

def isNull : Json → Bool
  | null => true
  | _ => false

/-- An object with each name once, in ascending order; of several members of one name the last
one counts. -/
def ofMembers (members : List (String × Json)) : Json :=
  .object (NameMap.ofList members).toList

mutual

/-- Equality of values, the order of members included. -/
def beq : Json → Json → Bool
  | null, null => true
  | bool a, bool b => a == b
  | number a, number b => a == b
  | string a, string b => a == b
  | array a, array b => beqItems a b
  | object a, object b => beqMembers a b
  | _, _ => false

def beqItems : List Json → List Json → Bool
  | [], [] => true
  | a :: as, b :: bs => beq a b && beqItems as bs
  | _, _ => false

def beqMembers : List (String × Json) → List (String × Json) → Bool
  | [], [] => true
  | (name, a) :: as, (other, b) :: bs => name == other && beq a b && beqMembers as bs
  | _, _ => false

end

mutual

theorem eq_of_beq : ∀ {a b : Json}, beq a b = true → a = b
  | null, b, h => by cases b <;> simp_all [beq]
  | bool _, b, h => by cases b <;> simp_all [beq]
  | number _, b, h => by cases b <;> simp_all [beq]
  | string _, b, h => by cases b <;> simp_all [beq]
  | array as, b, h => by
    cases b <;> simp only [beq, Bool.false_eq_true] at h
    exact congrArg array (eq_of_beqItems h)
  | object as, b, h => by
    cases b <;> simp only [beq, Bool.false_eq_true] at h
    exact congrArg object (eq_of_beqMembers h)

theorem eq_of_beqItems : ∀ {as bs : List Json}, beqItems as bs = true → as = bs
  | [], bs, h => by cases bs <;> simp_all [beqItems]
  | a :: as, bs, h => by
    cases bs with
    | nil => simp [beqItems] at h
    | cons b bs =>
      simp only [beqItems, Bool.and_eq_true] at h
      rw [eq_of_beq h.1, eq_of_beqItems h.2]

theorem eq_of_beqMembers : ∀ {as bs : List (String × Json)}, beqMembers as bs = true → as = bs
  | [], bs, h => by cases bs <;> simp_all [beqMembers]
  | (name, a) :: as, bs, h => by
    cases bs with
    | nil => simp [beqMembers] at h
    | cons entry bs =>
      obtain ⟨other, b⟩ := entry
      simp only [beqMembers, Bool.and_eq_true, beq_iff_eq] at h
      rw [h.1.1, eq_of_beq h.1.2, eq_of_beqMembers h.2]

end

mutual

theorem beq_refl : ∀ a : Json, beq a a = true
  | null => rfl
  | bool _ => by simp [beq]
  | number _ => by simp [beq]
  | string _ => by simp [beq]
  | array as => by simpa [beq] using beqItems_refl as
  | object as => by simpa [beq] using beqMembers_refl as

theorem beqItems_refl : ∀ as : List Json, beqItems as as = true
  | [] => rfl
  | a :: as => by simp [beqItems, beq_refl a, beqItems_refl as]

theorem beqMembers_refl : ∀ as : List (String × Json), beqMembers as as = true
  | [] => rfl
  | (_, a) :: as => by simp [beqMembers, beq_refl a, beqMembers_refl as]

end

instance : DecidableEq Json := fun a b =>
  if h : beq a b = true then isTrue (eq_of_beq h)
  else isFalse fun e => h (e ▸ beq_refl a)

end Json

end ResourceSql
