/-
The assignments that are displayed for people, read back. A text stands between
quotes with its own quotes doubled, so that a reader who takes two quotes for one
finds its end, whatever follows but a quote (`Reads.literal`); a separator inside
a text does not end it, so that the assignments can be told apart
(`Reads.assignments`). A character stands between quotes as it is. That makes a
difference for one character only, which is the quote itself: it is taken for a
half of two quotes, and the reader goes on beyond its literal (`literal_quote`).
-/
import ResourceSql.Proofs.Scanning

namespace ResourceSql

/-- A text or a single character. -/
def Value.isTextual : Value → Bool
  | text _ | char _ => true
  | _ => false

/-- The characters of a text, or the single one. -/
def Value.characters : Value → List Char
  | text s => s.toList
  | char c => [c]
  | _ => []

/-- A character other than the quote is the same doubled as single. -/
theorem Value.literalChars_textual {v : Value} (textual : v.isTextual = true)
    (plain : v ≠ .char '\x27') : v.literalChars = quoteChars v.characters := by
  cases v with
  | text s => rfl
  | char c =>
    have other : c ≠ '\x27' := fun same => plain (congrArg Value.char same)
    rw [characters, quoteChars, Dialect.double, List.flatMap_cons, if_neg other]
    rfl
  | _ => cases textual

theorem Value.closed_literalChars {v : Value} (textual : v.isTextual = true) :
    ∃ body, v.literalChars = '\x27' :: (body ++ ['\x27']) := by
  cases v with
  | text s => exact ⟨_, rfl⟩
  | char c => exact ⟨[c], rfl⟩
  | _ => cases textual

theorem Value.assignmentChars_eq (name : String) (v : Value) :
    v.assignmentChars name = name.toList ++ (" = ".toList ++ v.literalChars) := rfl

namespace Sql

namespace Scanner

/-- The characters between two quotes, where two quotes stand for one. -/
def literal : Scanner (List Char) := do
  word "\x27"
  unquote '\x27'

/-- The name of a parameter, and the characters that are bound to it. -/
def assignment : Scanner (String × List Char) := do
  let name ← numbered "@p"
  word " = "
  let held ← literal
  pure (name, held)

/-- Assignments one after another. There are no more of them than characters. -/
def assignments : Scanner (List (String × List Char)) := fun text =>
  listOf ", " assignment text.length text

end Scanner

/-! ## One literal -/

theorem Reads.quotedText (text : List Char) {rest : List Char} (stops : rest.head? ≠ some '\x27') :
    Reads Scanner.literal (Value.quoteChars text) text rest := by
  have body : Reads (unquote '\x27') (Dialect.double '\x27' text ++ ['\x27']) text rest := by
    unfold Reads
    rw [List.append_assoc]
    exact unquote_double '\x27' text stops
  exact .bind (word "\x27" _) body

theorem Reads.literal {v : Value} (textual : v.isTextual = true) (plain : v ≠ .char '\x27')
    {rest : List Char} (stops : rest.head? ≠ some '\x27') :
    Reads Scanner.literal v.literalChars v.characters rest := by
  rw [Value.literalChars_textual textual plain]
  exact .quotedText v.characters stops

/-- Nothing is read up to a mark only where the mark comes first. -/
theorem head_of_unquote_nil {mark : Char} {text rest : List Char}
    (h : unquote mark text = some ([], rest)) : text.head? = some mark := by
  match text with
  | [] => cases h
  | [c] =>
    rw [unquote] at h
    split at h
    · next same =>
      rw [same]
      rfl
    · cases h
  | c :: c' :: text =>
    by_cases same : c = mark
    · rw [same]
      rfl
    · rw [unquote, if_pos same] at h
      obtain ⟨_, -, shape⟩ := Option.map_eq_some_iff.1 h
      cases shape

/-- Two of the three quotes are taken for one, and the reader goes on into what follows. -/
theorem literal_quote {rest left : List Char} (stops : rest.head? ≠ some '\x27') :
    Scanner.literal ((Value.char '\x27').literalChars ++ rest) ≠ some (['\x27'], left) := by
  intro run
  have beyond : (unquote '\x27' rest).map (fun found => ('\x27' :: found.1, found.2)) =
      some (['\x27'], left) := run
  obtain ⟨⟨text, behind⟩, found, shape⟩ := Option.map_eq_some_iff.1 beyond
  cases shape
  exact stops (head_of_unquote_nil found)

/-! ## Assignments one after another -/

theorem Reads.assignment {name : String} {v : Value} (numbered : isNumbered "@p" name = true)
    (textual : v.isTextual = true) (plain : v ≠ .char '\x27') {rest : List Char}
    (stops : rest.head? ≠ some '\x27') :
    Reads Scanner.assignment (v.assignmentChars name) (name, v.characters) rest := by
  have held := (Reads.literal textual plain stops).last (f := fun held => (name, held))
  have breaks : breaks (" = ".toList ++ v.literalChars ++ rest) = true := rfl
  exact (Reads.numbered numbered breaks).bind (.bind (word " = " _) held)

theorem assignment_quote {name : String} (numbered : isNumbered "@p" name = true)
    {rest left : List Char} (stops : rest.head? ≠ some '\x27') :
    Scanner.assignment ((Value.char '\x27').assignmentChars name ++ rest) ≠
      some ((name, ['\x27']), left) := by
  intro run
  have breaks : breaks (" = ".toList ++ ((Value.char '\x27').literalChars ++ rest)) = true := rfl
  rw [Value.assignmentChars_eq, List.append_assoc, List.append_assoc, Scanner.assignment,
    (Reads.numbered numbered breaks).onward, (Reads.word " = " _).onward] at run
  obtain ⟨held, behind, read, shape⟩ := Scanner.bind_eq_some run
  cases shape
  exact literal_quote stops read

/-- Texts and characters, each under a name with a number. -/
def Bindings.Textual (b : Bindings) : Prop :=
  ∀ entry ∈ b, isNumbered "@p" entry.1 = true ∧ entry.2.isTextual = true

instance (b : Bindings) : Decidable b.Textual :=
  inferInstanceAs (Decidable (∀ entry ∈ b, _))

/-- The names, each with the characters that are bound to it. -/
def Bindings.characters (b : Bindings) : List (String × List Char) :=
  b.map fun (name, v) => (name, v.characters)

theorem Bindings.displayChars_eq_joined (b : Bindings) :
    b.displayChars = joined ", " (b.map fun (name, v) => v.assignmentChars name) := by
  induction b with
  | nil => rfl
  | cons entry b ih =>
    cases b with
    | nil => exact (List.append_nil _).symm
    | cons next b =>
      rw [displayChars, ih]
      · simp [joined]
      · simp

theorem Bindings.length_le_displayChars (b : Bindings) : b.length ≤ b.displayChars.length := by
  induction b with
  | nil => exact Nat.le_refl 0
  | cons entry b ih =>
    cases b with
    | nil =>
      simp only [displayChars, Value.assignmentChars, List.length_append, List.length_cons,
        List.length_nil]
      omega
    | cons next b =>
      rw [displayChars]
      · simp only [List.length_append, List.length_cons] at ih ⊢
        omega
      · simp

theorem noItem_assignment {name : String} (numbered : isNumbered "@p" name = true) (v : Value)
    (rest : List Char) : Scanner.noItem (v.assignmentChars name ++ rest) = false := by
  obtain ⟨ds, shape, -⟩ := toList_of_isNumbered numbered
  rw [Value.assignmentChars, shape]
  rfl

theorem Reads.assignments {b : Bindings} (textual : b.Textual)
    (plain : ∀ entry ∈ b, entry.2 ≠ .char '\x27') :
    Scanner.assignments b.displayChars = some (b.characters, []) := by
  have reads : Reads (Scanner.listOf ", " Scanner.assignment b.displayChars.length)
      (joined ", " (b.map fun (name, v) => v.assignmentChars name)) b.characters [] := by
    refine .listOf (fun rest => rest.head? ≠ some '\x27') ?_ (fun rest => by simp)
      b.length_le_displayChars (by simp) rfl
      (fun entry member => noItem_assignment (textual _ member).1 entry.2) rfl
    intro (name, v) member rest stops
    obtain ⟨numbered, held⟩ := textual _ member
    exact .assignment numbered held (plain _ member) stops
  rw [Reads, List.append_nil, ← Bindings.displayChars_eq_joined] at reads
  exact reads

/-- A reader of assignments that finds what was bound has met no quote as a character: up to the
first one it reads what was written, and there it goes on into the next assignment. -/
theorem plain_of_more {b : Bindings} (textual : b.Textual) {n : Nat}
    (run : (do
      let value ← Scanner.assignment
      let values ← Scanner.more ", " Scanner.assignment n
      pure (value :: values) : Scanner _)
        (joined ", " (b.map fun (name, v) => v.assignmentChars name)) = some (b.characters, [])) :
    ∀ entry ∈ b, entry.2 ≠ .char '\x27' := by
  induction b generalizing n with
  | nil => simp
  | cons entry b ih =>
    obtain ⟨name, v⟩ := entry
    obtain ⟨⟨numbered, held⟩, others⟩ := List.forall_mem_cons.1 textual
    have stops : ((b.map fun (name, v) => v.assignmentChars name).flatMap
        (", ".toList ++ ·)).head? ≠ some '\x27' := by
      cases b with
      | nil => simp
      | cons next b => simp
    rw [List.map_cons, joined] at run
    by_cases plain : v = .char '\x27'
    · subst plain
      obtain ⟨value, left, first, second⟩ := Scanner.bind_eq_some run
      obtain ⟨values, behind, -, shape⟩ := Scanner.bind_eq_some second
      cases shape
      exact absurd first (assignment_quote numbered stops)
    · rw [(Reads.assignment numbered held plain stops).onward] at run
      obtain ⟨values, behind, second, shape⟩ := Scanner.bind_eq_some run
      cases shape
      refine List.forall_mem_cons.2 ⟨plain, ?_⟩
      cases b with
      | nil => simp
      | cons next b =>
        cases n with
        | zero => cases second
        | succ n =>
          rw [List.map_cons, List.flatMap_cons, List.append_assoc, Scanner.more, Scanner.ifSees,
            skip_append] at second
          exact ih others second

theorem plain_of_assignments {b : Bindings} (textual : b.Textual)
    (run : Scanner.assignments b.displayChars = some (b.characters, [])) :
    ∀ entry ∈ b, entry.2 ≠ .char '\x27' := by
  cases b with
  | nil => simp
  | cons entry b =>
    have numbered := (textual entry (List.mem_cons_self ..)).1
    rw [Scanner.assignments, Scanner.listOf, Bindings.displayChars_eq_joined, List.map_cons, joined,
      noItem_assignment numbered, if_neg Bool.false_ne_true] at run
    exact plain_of_more textual run

/-- **Displayed texts are read back.** The literal of a text or of a character is closed, and before
anything but a quote a reader of literals stops at its end and finds the characters, if and only if
the value is not the quote as a character. The names and the characters of displayed assignments are
read back one after another, if and only if no value is that one. -/
theorem literals_read_back (v : Value) (b : Bindings) :
    (v.isTextual = true →
      (∃ body, v.literal.toList = '\x27' :: (body ++ ['\x27'])) ∧
      ∀ rest, rest.head? ≠ some '\x27' →
        (Reads Scanner.literal v.literal.toList v.characters rest ↔ v ≠ .char '\x27')) ∧
    (b.Textual →
      (Scanner.assignments b.display.toList = some (b.characters, []) ↔
        ∀ entry ∈ b, entry.2 ≠ .char '\x27')) := by
  rw [Value.literal, String.toList_ofList, Bindings.display, String.toList_ofList]
  constructor
  · intro textual
    refine ⟨Value.closed_literalChars textual, fun rest stops => ⟨?_, fun plain => ?_⟩⟩
    · rintro reads rfl
      exact literal_quote stops reads
    · exact .literal textual plain stops
  · intro textual
    exact ⟨plain_of_assignments textual, Reads.assignments textual⟩

/-- A text that looks like a further assignment is read as the text that it is. -/
theorem literals_read_back_intruder :
    Reads Scanner.literal (Value.text "O\x27Brien").literal.toList "O\x27Brien".toList [] ∧
    Scanner.assignments
        (Bindings.display [("@p1", .text "\x27, @p2 = \x27"), ("@p2", .char 'A')]).toList =
      some ([("@p1", "\x27, @p2 = \x27".toList), ("@p2", ['A'])], []) := by
  have both := literals_read_back (.text "O\x27Brien")
    [("@p1", .text "\x27, @p2 = \x27"), ("@p2", .char 'A')]
  exact ⟨((both.1 rfl).2 [] (by decide)).2 (by decide),
    (both.2 (by decide +kernel)).2 (by decide +kernel)⟩

/-- The quote as a character has a literal without an end, and as a text it has one. Before another
assignment the literal goes on into that one. -/
theorem quote_goes_on :
    Scanner.literal (Value.char '\x27').literal.toList = none ∧
    Scanner.literal (Value.text "\x27").literal.toList = some (['\x27'], []) ∧
    Scanner.assignments (Bindings.display [("@p1", .char '\x27'), ("@p2", .text "A")]).toList =
      some ([("@p1", "\x27, @p2 = ".toList)], "A\x27".toList) := by
  decide +kernel

end Sql

end ResourceSql
