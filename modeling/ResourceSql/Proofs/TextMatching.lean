/-
How databases match texts with patterns. A pattern is read as a list of elements,
each of which stands for one character of a text or for any number of them. In
all databases `%` is any sequence and `_` any one character. PostgreSQL and MySQL
read the character behind a backslash as itself; SQL Server has no such mark, but
reads what stands in brackets as a class of characters.

An escaped text is read as its characters (`readPattern_escaped`), so that the
pattern for a text at a place fits just the subjects that have the text at that
place (`resembles_pattern`).
-/
import Mathlib.Data.List.Infix
import ResourceSql.Dialect

namespace ResourceSql

/-! ## Elements of patterns -/

inductive PatternElement where
  /-- One character that passes a test. -/
  | one (accepts : Char → Bool)
  /-- Any number of characters. -/
  | sequence

namespace PatternElement

/-- One certain character. -/
def just (c : Char) : PatternElement := one fun x => x == c

def any : PatternElement := one fun _ => true

/-- The elements stand for the characters of the subject, from the first to the last. -/
def fits : List PatternElement → List Char → Bool
  | [], subject => subject.isEmpty
  | one _ :: _, [] => false
  | one accepts :: elements, c :: subject => accepts c && fits elements subject
  | sequence :: elements, subject => subject.tails.any (fits elements)

theorem fits_nil_iff {subject : List Char} : fits [] subject = true ↔ subject = [] := by
  simp [fits]

theorem fits_sequence_iff {elements : List PatternElement} {subject : List Char} :
    fits (sequence :: elements) subject = true ↔
      ∃ before behind, subject = before ++ behind ∧ fits elements behind = true := by
  simp only [fits, List.any_eq_true, List.mem_tails]
  constructor
  · intro h
    obtain ⟨behind, ⟨before, split⟩, fit⟩ := h
    exact ⟨before, behind, split.symm, fit⟩
  · intro h
    obtain ⟨before, behind, split, fit⟩ := h
    exact ⟨behind, ⟨before, split.symm⟩, fit⟩

theorem fits_text_iff {text : List Char} {elements : List PatternElement} {subject : List Char} :
    fits (text.map just ++ elements) subject = true ↔
      ∃ behind, subject = text ++ behind ∧ fits elements behind = true := by
  induction text generalizing subject with
  | nil => simp
  | cons c text ih =>
    cases subject with
    | nil => simp [just, fits]
    | cons x subject =>
      have step : fits (just c :: (text.map just ++ elements)) (x :: subject) = true ↔
          x = c ∧ fits (text.map just ++ elements) subject = true := by
        simp [just, fits]
      rw [List.map_cons, List.cons_append, step, ih]
      simp [and_assoc]

theorem fits_anything (subject : List Char) : fits [sequence] subject = true := by
  rw [fits_sequence_iff]
  exact ⟨subject, [], (List.append_nil subject).symm, fits_nil_iff.2 rfl⟩

theorem fits_text_alone_iff {text subject : List Char} :
    fits (text.map just) subject = true ↔ subject = text := by
  have alone := @fits_text_iff text [] subject
  simpa [fits_nil_iff] using alone

end PatternElement

/-! ## Reading patterns -/

open PatternElement

/-- A character is one of the members of a class, or in one of its ranges. -/
def isMember (c : Char) : List Char → Bool
  | first :: '-' :: last :: members => (first ≤ c && c ≤ last) || isMember c members
  | member :: members => c == member || isMember c members
  | [] => false

/-- A class that begins with `^` consists of the characters that are not its members. -/
def inClass : List Char → Char → Bool
  | '^' :: members, c => !isMember c members
  | members, c => isMember c members

/-- Reads a pattern in which a character behind a backslash stands for itself. What a backslash at
the end is read as is given. -/
def readMarked (ending : Option (List PatternElement)) : List Char → Option (List PatternElement)
  | [] => some []
  | ['\\'] => ending
  | '\\' :: c :: pattern => (readMarked ending pattern).map (just c :: ·)
  | '%' :: pattern => (readMarked ending pattern).map (sequence :: ·)
  | '_' :: pattern => (readMarked ending pattern).map (any :: ·)
  | c :: pattern => (readMarked ending pattern).map (just c :: ·)

/-- Reads a pattern with classes of characters in brackets. Within brackets, the members of the
class so far are given; a pattern may not end there. -/
def readClasses : Option (List Char) → List Char → Option (List PatternElement)
  | none, [] => some []
  | some _, [] => none
  | some members, ']' :: pattern => (readClasses none pattern).map (one (inClass members) :: ·)
  | some members, c :: pattern => readClasses (some (members ++ [c])) pattern
  | none, '[' :: pattern => readClasses (some []) pattern
  | none, '%' :: pattern => (readClasses none pattern).map (sequence :: ·)
  | none, '_' :: pattern => (readClasses none pattern).map (any :: ·)
  | none, c :: pattern => (readClasses none pattern).map (just c :: ·)

namespace Dialect

/-- The elements of a pattern, unless the database refuses it. PostgreSQL refuses a backslash at the
end, where MySQL reads it as itself. -/
def readPattern : Dialect → List Char → Option (List PatternElement)
  | postgreSql => readMarked none
  | mySql => readMarked (some [just '\\'])
  | sqlServer => readClasses none

/-- A subject is like a pattern. -/
def resembles (d : Dialect) (pattern subject : String) : Bool :=
  match d.readPattern pattern.toList with
  | some elements => fits elements subject.toList
  | none => false

/-! ## Escaped texts -/

theorem readPattern_nil (d : Dialect) : d.readPattern [] = some [] := by
  cases d <;> rfl

theorem readPattern_sequence (d : Dialect) (pattern : List Char) :
    d.readPattern ('%' :: pattern) = (d.readPattern pattern).map (sequence :: ·) := by
  cases d <;> simp [readPattern, readMarked, readClasses]

theorem readMarked_escape (ending : Option (List PatternElement)) (c : Char)
    (pattern : List Char) :
    readMarked ending ((if c = '\\' ∨ c = '%' ∨ c = '_' then ['\\', c] else [c]) ++ pattern) =
      (readMarked ending pattern).map (just c :: ·) := by
  by_cases special : c = '\\' ∨ c = '%' ∨ c = '_'
  · rw [if_pos special]
    simp [readMarked]
  · rw [if_neg special]
    simp only [not_or] at special
    obtain ⟨mark, percent, underscore⟩ := special
    simp [readMarked, mark]

/-- A class of one character, which is not `^`, has just that character. -/
theorem one_inClass {c : Char} (plain : c ≠ '^') : one (inClass [c]) = just c := by
  have same : inClass [c] = fun x => x == c := by
    funext x
    simp [inClass, isMember, plain]
  rw [same, just]

theorem readClasses_escape (c : Char) (pattern : List Char) :
    readClasses none ((if c = '[' ∨ c = '%' ∨ c = '_' then ['[', c, ']'] else [c]) ++ pattern) =
      (readClasses none pattern).map (just c :: ·) := by
  by_cases special : c = '[' ∨ c = '%' ∨ c = '_'
  · rw [if_pos special]
    have notClosing : c ≠ ']' := by
      intro same
      subst same
      simp at special
    have plain : c ≠ '^' := by
      intro same
      subst same
      simp at special
    simp [readClasses, one_inClass plain]
  · rw [if_neg special]
    simp only [not_or] at special
    obtain ⟨bracket, percent, underscore⟩ := special
    simp [readClasses]

theorem readPattern_escape (d : Dialect) (c : Char) (pattern : List Char) :
    d.readPattern (d.escapeWildcard c ++ pattern) = (d.readPattern pattern).map (just c :: ·) := by
  cases d with
  | postgreSql => exact readMarked_escape _ c pattern
  | mySql => exact readMarked_escape _ c pattern
  | sqlServer => exact readClasses_escape c pattern

/-- An escaped text is read as its characters, whatever follows. -/
theorem readPattern_escaped (d : Dialect) (text pattern : List Char) :
    d.readPattern (text.flatMap d.escapeWildcard ++ pattern) =
      (d.readPattern pattern).map (text.map just ++ ·) := by
  induction text with
  | nil => simp
  | cons c text ih =>
    rw [List.flatMap_cons, List.append_assoc, readPattern_escape, ih, Option.map_map]
    rfl

end Dialect

/-! ## Finding texts -/

/-- A subject has a text at a place. -/
def TextMatch.Finds (text subject : String) : TextMatch → Prop
  | startsWith => text.toList <+: subject.toList
  | endsWith => text.toList <:+ subject.toList
  | contains => text.toList <:+: subject.toList

/-- A subject is like the pattern for a text just if it has that text at the place, character by
character, whatever characters the text consists of. -/
theorem Dialect.resembles_pattern (d : Dialect) (place : TextMatch) (text subject : String) :
    d.resembles (d.pattern place text) subject = true ↔ place.Finds text subject := by
  have whole := d.readPattern_escaped text.toList []
  have begun := d.readPattern_escaped text.toList ['%']
  rw [List.append_nil] at whole
  rw [readPattern_sequence] at begun
  simp only [readPattern_nil, Option.map_some, List.append_nil] at whole begun
  unfold resembles pattern TextMatch.Finds
  rw [String.toList_ofList]
  cases place with
  | startsWith =>
    simp only [patternChars, begun, fits_text_iff, fits_anything, and_true]
    constructor
    · intro h
      obtain ⟨behind, split⟩ := h
      exact ⟨behind, split.symm⟩
    · intro h
      obtain ⟨behind, split⟩ := h
      exact ⟨behind, split.symm⟩
  | endsWith =>
    simp only [patternChars, readPattern_sequence, whole, Option.map_some, fits_sequence_iff,
      fits_text_alone_iff]
    constructor
    · intro h
      obtain ⟨before, behind, split, same⟩ := h
      exact ⟨before, by rw [split, same]⟩
    · intro h
      obtain ⟨before, split⟩ := h
      exact ⟨before, text.toList, split.symm, rfl⟩
  | contains =>
    simp only [patternChars, readPattern_sequence, begun, Option.map_some, fits_sequence_iff,
      fits_text_iff, fits_anything, and_true]
    constructor
    · intro h
      obtain ⟨before, found, split, behind, text_first⟩ := h
      exact ⟨before, behind, by rw [split, text_first, List.append_assoc]⟩
    · intro h
      obtain ⟨before, behind, split⟩ := h
      exact ⟨before, text.toList ++ behind, by rw [← split, List.append_assoc], behind, rfl⟩

-- A percent sign of the text is no wildcard, not even within brackets.
example :
    Dialect.sqlServer.resembles (Dialect.sqlServer.pattern .endsWith "[5%") "[5 %" = false := by
  decide

end ResourceSql
