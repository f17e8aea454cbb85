/-
Written JSON reads back. The pretty text of a value, in front of anything that
cannot go on with a number, is read into an outline in which nothing is wrong
and which shows that value (`Document.read_pretty`), provided that the numbers of
the value are integers of 64 bits and it is not nested too deeply. Strings may
hold any characters: what is escaped in them is read as it was
(`scanString_quote`).
-/
import ResourceSql.Json.Printer
import ResourceSql.Json.Reader

namespace ResourceSql

/-! ## Outlines of values -/

mutual

/-- The outline is that of a value, and nothing is wrong in it. -/
inductive Outline.Shows : Outline → Json → Prop
  | null (p : Place) : Shows (.null p) .null
  | bool (b : Bool) (p : Place) : Shows (.bool b p) (.bool b)
  | number (n : JsonNumber) (p : Place) : Shows (.number n p) (.number n)
  | string (s : String) (p : Place) : Shows (.string s p) (.string s)
  | array {items : List Outline} {values : List Json} (p q : Place) :
    ShowsItems items values → Shows (.array p none items (.ok q)) (.array values)
  | object {members : List (Except Fault String × Place × Outline)}
    {values : List (String × Json)} (p q : Place) :
    ShowsMembers members values → Shows (.object p none members (.ok q)) (.object values)

inductive Outline.ShowsItems : List Outline → List Json → Prop
  | nil : ShowsItems [] []
  | cons {o : Outline} {value : Json} {items : List Outline} {values : List Json} :
    Outline.Shows o value → ShowsItems items values → ShowsItems (o :: items) (value :: values)

inductive Outline.ShowsMembers :
    List (Except Fault String × Place × Outline) → List (String × Json) → Prop
  | nil : ShowsMembers [] []
  | cons {o : Outline} {value : Json} {members : List (Except Fault String × Place × Outline)}
    {values : List (String × Json)} (name : String) (p : Place) :
    Outline.Shows o value → ShowsMembers members values →
      ShowsMembers ((.ok name, p, o) :: members) ((name, value) :: values)

end

/-! ## Values whose texts are read back -/

namespace Json

mutual

/-- The numbers of the value are integers of 64 bits. -/
def isIntegral : Json → Bool
  | number (.integer n) => -Int.pow 2 63 ≤ n && n < Int.pow 2 64
  | number _ => false
  | null | bool _ | string _ => true
  | array items => itemsIntegral items
  | object members => membersIntegral members

def itemsIntegral : List Json → Bool
  | [] => true
  | item :: items => isIntegral item && itemsIntegral items

def membersIntegral : List (String × Json) → Bool
  | [] => true
  | (_, value) :: members => isIntegral value && membersIntegral members

end

mutual

/-- How many lists and objects are nested in each other. -/
def height : Json → Nat
  | null | bool _ | number _ | string _ => 0
  | array items => itemsHeight items + 1
  | object members => membersHeight members + 1

def itemsHeight : List Json → Nat
  | [] => 0
  | item :: items => max (height item) (itemsHeight items)

def membersHeight : List (String × Json) → Nat
  | [] => 0
  | (_, value) :: members => max (height value) (membersHeight members)

end

end Json

/-- A value that a text can hold: its numbers fit, and it is not nested deeper than a bound. -/
structure Json.Fits (bound : Nat) (value : Json) : Prop where
  integral : value.isIntegral = true
  flat : value.height ≤ bound

namespace Json

variable {bound : Nat}

@[simp] theorem Fits.string (s : String) : Fits bound (.string s) := ⟨rfl, Nat.zero_le _⟩

@[simp] theorem Fits.bool (b : Bool) : Fits bound (.bool b) := ⟨rfl, Nat.zero_le _⟩

@[simp] theorem Fits.optionalText (s? : Option String) : Fits bound (.ofOption .string s?) := by
  cases s? with
  | none => exact ⟨rfl, Nat.zero_le _⟩
  | some s => exact .string s

theorem Fits.array {items : List Json} (each : ∀ item ∈ items, item.Fits bound) :
    Fits (bound + 1) (.array items) := by
  have all : itemsIntegral items = true ∧ itemsHeight items ≤ bound := by
    induction items with
    | nil => exact ⟨rfl, Nat.zero_le _⟩
    | cons item items ih =>
      obtain ⟨integral, flat⟩ := ih fun item member => each item (List.mem_cons_of_mem _ member)
      have first := each item (List.mem_cons_self ..)
      exact ⟨by rw [itemsIntegral, first.integral, integral]; rfl, Nat.max_le.2 ⟨first.flat, flat⟩⟩
  exact ⟨all.1, Nat.succ_le_succ all.2⟩

theorem Fits.object {members : List (String × Json)}
    (each : ∀ member ∈ members, member.2.Fits bound) : Fits (bound + 1) (.object members) := by
  have all : membersIntegral members = true ∧ membersHeight members ≤ bound := by
    induction members with
    | nil => exact ⟨rfl, Nat.zero_le _⟩
    | cons member members ih =>
      obtain ⟨integral, flat⟩ := ih fun other given => each other (List.mem_cons_of_mem _ given)
      have first := each member (List.mem_cons_self ..)
      exact ⟨by rw [membersIntegral, first.integral, integral]; rfl,
        Nat.max_le.2 ⟨first.flat, flat⟩⟩
  exact ⟨all.1, Nat.succ_le_succ all.2⟩

end Json

/-! ## Strings -/

/-- A piece of a string stands for a character. -/
inductive StringUnit.Stands : StringUnit → Char → Prop
  | char (c : Char) : Stands (.char c) c
  | code {n : Nat} {c : Char} : n < 32 → Char.ofNat n = c → Stands (.code n) c

theorem toOption_map {α β : Type} (f : α → β) (x : Except Fault α) :
    (x.map f).toOption = x.toOption.map f := by
  cases x <;> rfl

/-- Places do not decide whether pieces are joined. -/
theorem joinUnits_moved (p q : Place) : ∀ (unit : StringUnit) (units : List (StringUnit × Place)),
    (joinUnits ((unit, p) :: units)).toOption = (joinUnits ((unit, q) :: units)).toOption
  | .char c, units => by rw [joinUnits, joinUnits]
  | .code n, [] => by
    simp only [joinUnits]
    split <;> rfl
  | .code n, (.char c, _) :: units => by
    simp only [joinUnits]
    split <;> rfl
  | .code n, (.code low, _) :: units => by
    simp only [joinUnits]
    split
    · rfl
    · split
      · rfl
      · rw [toOption_map, toOption_map, joinUnits_moved p q (.code low) units]

theorem joinUnits_cons {unit : StringUnit} {c : Char} (stands : unit.Stands c) (place : Place)
    (units : List (StringUnit × Place)) :
    (joinUnits ((unit, place) :: units)).toOption = (joinUnits units).toOption.map (c :: ·) := by
  cases stands with
  | char c => rw [joinUnits, toOption_map]
  | @code n _ small same =>
    subst same
    have high : isHighSurrogate n = false := by
      simp only [isHighSurrogate, Bool.and_eq_false_iff, decide_eq_false_iff_not]
      omega
    have low : isLowSurrogate n = false := by
      simp only [isLowSurrogate, Bool.and_eq_false_iff, decide_eq_false_iff_not]
      omega
    cases units with
    | nil => simp [joinUnits, high, low, toOption_map]
    | cons next units =>
      obtain ⟨next, q⟩ := next
      cases next with
      | char c => simp [joinUnits, high, low, toOption_map]
      | code next =>
        simp [joinUnits, high, low, toOption_map, joinUnits_moved place q (.code next)]

/-- The four digits of a character below the space are read as its number. -/
theorem hexadecimal_digits (n : Nat) (small : n < 32) :
    ∃ a b c d, Hexadecimal.digits Hexadecimal.digit 4 n = [a, b, c, d] ∧
      Hexadecimal.toNat? [a, b, c, d] = some n := by
  have all : ∀ n, n < 32 →
      Hexadecimal.toNat? (Hexadecimal.digits Hexadecimal.digit 4 n) = some n := by decide
  exact ⟨_, _, _, _, rfl, all n small⟩

theorem scanString_plain {c : Char} (mark : c ≠ '"') (backslash : c ≠ '\\') (high : 32 ≤ c.toNat)
    (rest : List Char) (place : Place) :
    scanString (c :: rest) place =
      .cons (.char c) (place.after c) (scanString rest (place.after c)) := by
  rw [scanString]
  · exact if_neg (Nat.not_lt.2 high)
  all_goals
    intros
    first
      | exact mark ‹_›
      | exact backslash ‹_›

theorem scanString_escape {letter c : Char} (other : letter ≠ 'u')
    (simple : simpleEscape? letter = some c) (rest : List Char) (place : Place) :
    scanString ('\\' :: letter :: rest) place =
      .cons (.char c) ((place.after '\\').after letter)
        (scanString rest ((place.after '\\').after letter)) := by
  rw [scanString]
  · simp only [simple]
  all_goals
    intros
    exact other ‹_›

/-- A character of a string is scanned as it was written. -/
theorem scanString_escapeChar (c : Char) (rest : List Char) (place : Place) :
    ∃ unit next, unit.Stands c ∧
      scanString (Json.escapeChar c ++ rest) place = .cons unit next (scanString rest next) := by
  unfold Json.escapeChar
  cases short : Json.shortEscape? c with
  | some letter =>
    have simple : letter ≠ 'u' ∧ simpleEscape? letter = some c := by
      unfold Json.shortEscape? at short
      repeat' split at short
      all_goals first
        | (cases short; subst_vars; decide)
        | cases short
    exact ⟨_, _, .char c, scanString_escape simple.1 simple.2 rest place⟩
  | none =>
    dsimp only
    by_cases small : c.toNat < 32
    · rw [if_pos small]
      obtain ⟨h₁, h₂, h₃, h₄, written, read⟩ := hexadecimal_digits c.toNat small
      refine ⟨.code c.toNat, ?_, .code small (Char.ofNat_toNat c), ?_⟩
      rotate_left
      · rw [written]
        simp only [List.cons_append, List.nil_append, scanString, read]
        rfl
    · rw [if_neg small]
      have mark : c ≠ '"' := by
        rintro rfl
        exact absurd short (by decide)
      have backslash : c ≠ '\\' := by
        rintro rfl
        exact absurd short (by decide)
      exact ⟨_, _, .char c, scanString_plain mark backslash (Nat.not_lt.1 small) rest place⟩

/-- A quoted text is read up to its closing mark, and nothing of it is lost. -/
theorem scanString_quote (text rest : List Char) (place : Place) :
    ∃ units next, scanString (text.flatMap Json.escapeChar ++ '"' :: rest) place =
        ⟨units, .ok ⟨rest, next⟩⟩ ∧ joinUnits units = .ok text := by
  suffices scanned : ∃ units next, scanString (text.flatMap Json.escapeChar ++ '"' :: rest) place =
      ⟨units, .ok ⟨rest, next⟩⟩ ∧ (joinUnits units).toOption = some text by
    obtain ⟨units, next, scanned, joined⟩ := scanned
    refine ⟨units, next, scanned, ?_⟩
    cases made : joinUnits units with
    | ok found => rw [made] at joined; exact congrArg Except.ok (Option.some.inj joined)
    | error fault => rw [made] at joined; cases joined
  induction text generalizing place with
  | nil => exact ⟨[], place.after '"', by simp [scanString], by simp [joinUnits, Except.toOption]⟩
  | cons c text ih =>
    obtain ⟨unit, after, stands, first⟩ :=
      scanString_escapeChar c (text.flatMap Json.escapeChar ++ '"' :: rest) place
    obtain ⟨units, next, others, joined⟩ := ih after
    refine ⟨(unit, after) :: units, next, ?_, ?_⟩
    · rw [List.flatMap_cons, List.append_assoc, first, others]
      rfl
    · rw [joinUnits_cons stands, joined]
      rfl

/-! ## Numbers -/

/-- What can come behind a value: nothing, a comma or a new line. No number goes on there. -/
def Follows (rest : List Char) : Prop := ∀ c, rest.head? = some c → c = ',' ∨ c = '\n'

theorem Follows.not_digit {rest : List Char} (follows : Follows rest) :
    rest.takeWhile Char.isDigit = [] := by
  cases rest with
  | nil => rfl
  | cons c rest =>
    rcases follows c rfl with rfl | rfl <;> rfl

theorem skipWhile_rest (p : Char → Bool) (text : List Char) (place : Place) :
    (Cursor.skipWhile p text place).rest = text.dropWhile p := by
  induction text generalizing place with
  | nil => rfl
  | cons c text ih =>
    unfold Cursor.skipWhile
    rw [List.dropWhile_cons]
    split
    · exact ih _
    · rfl

/-- Only the number zero begins with the digit zero. -/
theorem Digits.head_ofNat (n : Nat) {ds : List Char} (zero : Digits.ofNat n = '0' :: ds) :
    ds = [] := by
  unfold Digits.ofNat at zero
  split at zero
  · exact (List.cons.inj zero).2.symm
  · rename_i big
    cases front : Digits.ofNat (n / 10) with
    | nil => exact absurd front (Digits.ofNat_ne_nil _)
    | cons c cs =>
      rw [front, List.cons_append] at zero
      obtain ⟨rfl, -⟩ := List.cons.inj zero
      have none := Digits.head_ofNat (n / 10) front
      have value := Digits.toNat_ofNat (n / 10)
      rw [front, none] at value
      have nothing : Digits.toNat ['0'] = 0 := by decide
      omega
termination_by n
decreasing_by omega

theorem takeDigits_ofNat (n : Nat) {rest : List Char} (follows : Follows rest) (place : Place) :
    ∃ next, takeDigits ⟨Digits.ofNat n ++ rest, place⟩ = (Digits.ofNat n, ⟨rest, next⟩) := by
  have digits : ∀ c ∈ Digits.ofNat n, c.isDigit = true := fun _ => Digits.isDigit_of_mem_ofNat
  have taken : (Digits.ofNat n ++ rest).takeWhile Char.isDigit = Digits.ofNat n := by
    rw [List.takeWhile_append_of_pos digits, follows.not_digit, List.append_nil]
  have left : (Cursor.skipWhile Char.isDigit (Digits.ofNat n ++ rest) place).rest = rest := by
    rw [skipWhile_rest, List.dropWhile_append_of_pos digits]
    have whole := List.takeWhile_append_dropWhile (p := Char.isDigit) (l := rest)
    rwa [follows.not_digit, List.nil_append] at whole
  exact ⟨(Cursor.skipWhile Char.isDigit (Digits.ofNat n ++ rest) place).place,
    Prod.ext taken (congrArg (Cursor.mk · _) left)⟩

/-- The digits of a number are read up to what follows. -/
theorem readWhole_ofNat (n : Nat) {rest : List Char} (follows : Follows rest) (place : Place) :
    ∃ next, readWhole ⟨Digits.ofNat n ++ rest, place⟩ = .ok (Digits.ofNat n, ⟨rest, next⟩) := by
  obtain ⟨next, taken⟩ := takeDigits_ofNat n follows place
  obtain ⟨c, ds, written⟩ := List.exists_cons_of_ne_nil (Digits.ofNat_ne_nil n)
  by_cases zero : c = '0'
  · subst zero
    obtain rfl := Digits.head_ofNat n written
    rw [written]
    exact ⟨_, by simp [readWhole, follows.not_digit]; rfl⟩
  · refine ⟨next, ?_⟩
    rw [written] at taken ⊢
    unfold readWhole
    split
    · next same => exact absurd (List.cons.inj same).1 zero
    · rw [taken]

theorem readFraction_none {rest : List Char} (follows : Follows rest) (place : Place) :
    readFraction ⟨rest, place⟩ = .ok (none, ⟨rest, place⟩) := by
  cases rest with
  | nil => rfl
  | cons c rest => rcases follows c rfl with rfl | rfl <;> rfl

theorem readExponent_none {rest : List Char} (follows : Follows rest) (place : Place) :
    readExponent ⟨rest, place⟩ = .ok (none, ⟨rest, place⟩) := by
  cases rest with
  | nil => rfl
  | cons c rest => rcases follows c rfl with rfl | rfl <;> rfl

theorem scanNumber_ofInt (n : Int) {rest : List Char} (follows : Follows rest) (place : Place) :
    ∃ next, scanNumber ⟨Digits.ofInt n ++ rest, place⟩ =
      .ok (⟨decide (n < 0), Digits.ofNat n.natAbs, [], 0, false⟩, ⟨rest, next⟩) := by
  cases n with
  | ofNat n =>
    obtain ⟨next, read⟩ := readWhole_ofNat n follows place
    refine ⟨next, ?_⟩
    obtain ⟨c, ds, written⟩ := List.exists_cons_of_ne_nil (Digits.ofNat_ne_nil n)
    have digit : c.isDigit = true := Digits.isDigit_of_mem_ofNat (n := n) (by simp [written])
    have unsigned : c ≠ '-' := by
      rintro rfl
      exact absurd digit (by decide)
    rw [Digits.ofInt]
    rw [written, List.cons_append] at read ⊢
    simp [scanNumber, unsigned, read, readFraction_none follows, readExponent_none follows, bind,
      Except.bind, pure, Except.pure, written]
  | negSucc n =>
    obtain ⟨next, read⟩ := readWhole_ofNat (n + 1) follows (place.after '-')
    refine ⟨next, ?_⟩
    simp [scanNumber, Digits.ofInt, read, readFraction_none follows, readExponent_none follows,
      bind, Except.bind, pure, Except.pure]

theorem readNumber_ofInt {n : Int} (lower : -Int.pow 2 63 ≤ n) (upper : n < Int.pow 2 64)
    {rest : List Char} (follows : Follows rest) (place : Place) :
    ∃ next, readNumber ⟨Digits.ofInt n ++ rest, place⟩ =
      (.number (.integer n) next, .ok ⟨rest, next⟩) := by
  obtain ⟨next, scanned⟩ := scanNumber_ofInt n follows place
  refine ⟨next, ?_⟩
  have signed : (if decide (n < 0) = true then -(n.natAbs : Int) else n.natAbs) = n := by
    by_cases negative : n < 0
    · rw [if_pos (by simpa using negative)]
      omega
    · rw [if_neg (by simpa using negative)]
      omega
  have value : NumberText.value? ⟨decide (n < 0), Digits.ofNat n.natAbs, [], 0, false⟩ =
      some (.integer n) := by
    unfold NumberText.value?
    simp only [Digits.toNat_ofNat, signed]
    refine if_pos ⟨by simp, lower, upper, ?_⟩
    rintro ⟨negative, zero⟩
    have below : n < 0 := by simpa using negative
    omega
  simp only [readNumber, scanned, value]

/-! ## Blanks -/

/-- Blanks are passed over up to anything else. -/
theorem skipBlanks_append {blanks : List Char} (blank : ∀ c ∈ blanks, Cursor.isBlank c = true)
    {c : Char} (other : Cursor.isBlank c = false) (text : List Char) (place : Place) :
    ∃ next, Cursor.skipBlanks ⟨blanks ++ c :: text, place⟩ = ⟨c :: text, next⟩ := by
  induction blanks generalizing place with
  | nil => exact ⟨place, by simp [Cursor.skipBlanks, Cursor.skipWhile, other]⟩
  | cons b blanks ih =>
    obtain ⟨next, skipped⟩ :=
      ih (fun c member => blank c (List.mem_cons_of_mem _ member)) (place.after b)
    refine ⟨next, ?_⟩
    have here : Cursor.isBlank b = true := blank b (List.mem_cons_self ..)
    simpa [Cursor.skipBlanks, Cursor.skipWhile, here] using skipped

theorem isBlank_newLine (depth : Nat) : ∀ c ∈ Json.newLine depth, Cursor.isBlank c = true := by
  intro c member
  rcases List.mem_cons.1 member with rfl | member
  · rfl
  · rw [List.eq_of_mem_replicate member]
    rfl

theorem follows_newLine (depth : Nat) (text : List Char) :
    Follows (Json.newLine depth ++ text) := by
  intro c first
  right
  simpa [Json.newLine] using first.symm

/-! ## Values -/

/-- A text is one of a value, whatever follows behind it. -/
def ReadsValue (fuel depth : Nat) (text : List Char) (value : Json) : Prop :=
  ∀ rest place, Follows rest → ∃ o next,
    readValue fuel depth ⟨text ++ rest, place⟩ = (o, .ok ⟨rest, next⟩) ∧ o.Shows value

/-- A text has the items of a list up to its end. -/
def ReadsItems (fuel depth : Nat) (isFirst : Bool) (text : List Char) (items : List Json) : Prop :=
  ∀ rest place, ∃ os next,
    readItems fuel depth isFirst ⟨text ++ rest, place⟩ = (os, .ok ⟨rest, next⟩) ∧
      Outline.ShowsItems os items

/-- A text has the members of an object up to its end. -/
def ReadsMembers (fuel depth : Nat) (isFirst : Bool) (text : List Char)
    (members : List (String × Json)) : Prop :=
  ∀ rest place, ∃ os next,
    readMembers fuel depth isFirst ⟨text ++ rest, place⟩ = (os, .ok ⟨rest, next⟩) ∧
      Outline.ShowsMembers os members

/-- The text begins with a character that neither ends a list nor is blank. -/
def Begins (text : List Char) : Prop :=
  ∃ c tail, text = c :: tail ∧ Cursor.isBlank c = false ∧ c ≠ ']'

section

variable {fuel depth : Nat} {text more : List Char} {value : Json}

theorem readItems_end (fuel depth : Nat) (isFirst : Bool) (blanks : List Char)
    (blank : ∀ c ∈ blanks, Cursor.isBlank c = true) :
    ReadsItems (fuel + 1) depth isFirst (blanks ++ [']']) [] := by
  intro rest place
  rw [List.append_assoc, List.singleton_append]
  obtain ⟨next, skipped⟩ := skipBlanks_append blank (c := ']') rfl rest place
  exact ⟨[], next.after ']', by simp [readItems, skipped], .nil⟩

/-- All items but the first come after a comma. -/
def separator (isFirst : Bool) : List Char := if isFirst then [] else [',']

/-- An item on a line of its own, and those behind it. -/
theorem readItems_cons {items : List Json} (isFirst : Bool) (k : Nat) (begins : Begins text)
    (item : ReadsValue fuel depth text value) (follows : ∀ rest, Follows (more ++ rest))
    (others : ReadsItems fuel depth false more items) :
    ReadsItems (fuel + 1) depth isFirst (separator isFirst ++ (Json.newLine k ++ text ++ more))
      (value :: items) := by
  intro rest place
  obtain ⟨c, tail, rfl, other, open_⟩ := begins
  obtain ⟨start, skipped⟩ := skipBlanks_append (isBlank_newLine k) other
    (tail ++ (more ++ rest)) (if isFirst then place else place.after ',')
  obtain ⟨o, next, read, shown⟩ := item (more ++ rest) start (follows rest)
  obtain ⟨os, last, read', shown'⟩ := others rest next
  refine ⟨o :: os, last, ?_, .cons shown shown'⟩
  rw [List.cons_append] at read
  cases isFirst with
  | true =>
    simp only [if_true] at skipped
    simp [separator, readItems, skipped, open_, read, read']
  | false =>
    have comma (text : List Char) :
        Cursor.skipBlanks ⟨',' :: text, place⟩ = ⟨',' :: text, place⟩ := rfl
    simp only [Bool.false_eq_true, if_false] at skipped
    simp [separator, readItems, comma, skipped, open_, read, read']

/-- A blank before a value is passed over. -/
theorem readsValue_blank (begins : Begins text) (reads : ReadsValue fuel depth text value) :
    ReadsValue fuel depth (' ' :: text) value := by
  intro rest place follows
  obtain ⟨c, tail, rfl, other, -⟩ := begins
  obtain ⟨o, next, read, shown⟩ := reads rest (place.after ' ') follows
  refine ⟨o, next, ?_, shown⟩
  rw [← read]
  cases fuel with
  | zero => cases read
  | succ fuel =>
    have moved : Cursor.skipBlanks ⟨' ' :: (c :: tail ++ rest), place⟩ =
        Cursor.skipBlanks ⟨c :: tail ++ rest, place.after ' '⟩ := rfl
    rw [List.cons_append, readValue, readValue, moved]

theorem readMembers_end (fuel depth : Nat) (isFirst : Bool) (blanks : List Char)
    (blank : ∀ c ∈ blanks, Cursor.isBlank c = true) :
    ReadsMembers (fuel + 1) depth isFirst (blanks ++ ['\x7d']) [] := by
  intro rest place
  rw [List.append_assoc, List.singleton_append]
  obtain ⟨next, skipped⟩ := skipBlanks_append blank (c := '\x7d') rfl rest place
  exact ⟨[], next.after '\x7d', by simp [readMembers, skipped], .nil⟩

/-- The text of a member. -/
def memberText (k : Nat) (name : String) (text : List Char) : List Char :=
  Json.newLine k ++ Json.quote name.toList ++ ':' :: ' ' :: text

/-- A member on a line of its own, and those behind it. -/
theorem readMembers_cons {members : List (String × Json)} (isFirst : Bool) (k : Nat)
    (name : String) (begins : Begins text) (member : ReadsValue fuel depth text value)
    (follows : ∀ rest, Follows (more ++ rest))
    (others : ReadsMembers fuel depth false more members) :
    ReadsMembers (fuel + 1) depth isFirst (separator isFirst ++ (memberText k name text ++ more))
      ((name, value) :: members) := by
  intro rest place
  obtain ⟨start, skipped⟩ := skipBlanks_append (isBlank_newLine k) (c := '"') rfl
    (name.toList.flatMap Json.escapeChar ++ '"' :: ':' :: ' ' :: (text ++ (more ++ rest)))
    (if isFirst then place else place.after ',')
  obtain ⟨units, closed, scanned, joined⟩ := scanString_quote name.toList
    (':' :: ' ' :: (text ++ (more ++ rest))) (start.after '"')
  obtain ⟨o, next, read, shown⟩ :=
    readsValue_blank begins member (more ++ rest) (closed.after ':') (follows rest)
  obtain ⟨os, last, read', shown'⟩ := others rest next
  refine ⟨(.ok name, closed, o) :: os, last, ?_, .cons name closed shown shown'⟩
  rw [List.cons_append] at read
  have colon (text : List Char) :
      Cursor.skipBlanks ⟨':' :: text, closed⟩ = ⟨':' :: text, closed⟩ := rfl
  cases isFirst with
  | true =>
    simp only [if_true] at skipped
    simp [separator, memberText, Json.quote, readMembers, skipped, scanned, joined, colon, read,
      read', Except.map]
  | false =>
    have comma (text : List Char) :
        Cursor.skipBlanks ⟨',' :: text, place⟩ = ⟨',' :: text, place⟩ := rfl
    simp only [Bool.false_eq_true, if_false] at skipped
    simp [separator, memberText, Json.quote, readMembers, comma, skipped, scanned, joined, colon,
      read, read', Except.map]

end

/-! ## Whole texts -/

theorem ofInt_head (n : Int) :
    ∃ c ds, Digits.ofInt n = c :: ds ∧ (c = '-' ∨ c.isDigit = true) := by
  cases n with
  | ofNat n =>
    obtain ⟨c, ds, written⟩ := List.exists_cons_of_ne_nil (Digits.ofNat_ne_nil n)
    exact ⟨c, ds, written, .inr (Digits.isDigit_of_mem_ofNat (n := n) (by simp [written]))⟩
  | negSucc n => exact ⟨_, _, rfl, .inl rfl⟩

theorem begins_pretty (k : Nat) (value : Json) (integral : value.isIntegral = true) :
    Begins (value.pretty k) := by
  cases value with
  | null => exact ⟨_, _, rfl, rfl, by decide⟩
  | bool b => cases b <;> exact ⟨_, _, rfl, rfl, by decide⟩
  | string s => exact ⟨_, _, rfl, rfl, by decide⟩
  | array items => cases items <;> exact ⟨_, _, rfl, rfl, by decide⟩
  | object members =>
    rcases members with _ | ⟨⟨name, value⟩, members⟩ <;> exact ⟨_, _, rfl, rfl, by decide⟩
  | number n =>
    cases n with
    | integer n =>
      obtain ⟨c, ds, written, first⟩ := ofInt_head n
      refine ⟨c, ds, written, ?_, ?_⟩
      · cases blank : Cursor.isBlank c with
        | false => rfl
        | true =>
          simp only [Cursor.isBlank, Bool.or_eq_true, beq_iff_eq] at blank
          rcases blank with ((rfl | rfl) | rfl) | rfl <;> exact absurd first (by decide)
      · rintro rfl
        exact absurd first (by decide)
    | double x => cases integral
    | single x => cases integral

theorem follows_prettyItems (k j : Nat) (items : List Json) (text : List Char) :
    Follows (Json.prettyItems k items ++ (Json.newLine j ++ text)) := by
  cases items with
  | nil => exact follows_newLine j text
  | cons item items =>
    intro c first
    left
    simpa [Json.prettyItems] using first.symm

theorem follows_prettyMembers (k j : Nat) (members : List (String × Json)) (text : List Char) :
    Follows (Json.prettyMembers k members ++ (Json.newLine j ++ text)) := by
  cases members with
  | nil => exact follows_newLine j text
  | cons member members =>
    intro c first
    left
    simpa [Json.prettyMembers] using first.symm

theorem readsValue_number {n : Int} (integral : (Json.number (.integer n)).isIntegral = true)
    (fuel depth : Nat) : ReadsValue (fuel + 1) depth (Digits.ofInt n) (.number (.integer n)) := by
  intro rest place follows
  obtain ⟨c, tail, written, blank, -⟩ := begins_pretty 0 (.number (.integer n)) integral
  simp only [Json.isIntegral, Bool.and_eq_true, decide_eq_true_eq] at integral
  obtain ⟨next, read⟩ := readNumber_ofInt integral.1 integral.2 follows place
  refine ⟨_, next, ?_, .number (.integer n) next⟩
  obtain ⟨c', tail', written', first⟩ := ofInt_head n
  obtain ⟨rfl, rfl⟩ := List.cons.inj (written.symm.trans written')
  have still :
      Cursor.skipBlanks ⟨Digits.ofInt n ++ rest, place⟩ = ⟨Digits.ofInt n ++ rest, place⟩ := by
    simp [written', Cursor.skipBlanks, Cursor.skipWhile, blank]
  have letter {l : Char} (other : ¬ (l = '-' ∨ l.isDigit = true)) : c ≠ l := by
    rintro rfl
    exact other first
  rw [readValue, still]
  rw [written'] at read ⊢
  simp only [List.cons_append] at read ⊢
  rw [if_neg (letter (by decide)), if_neg (letter (by decide)), if_neg (letter (by decide)),
    if_neg (letter (by decide)), if_pos first, read]

theorem tooDeep?_none {depth : Nat} (flat : depth < nestingLimit) (cur : Cursor) :
    tooDeep? depth cur = none := if_pos flat

theorem readsValue_array {fuel depth : Nat} {text : List Char} {items : List Json}
    (flat : depth < nestingLimit) (inside : ReadsItems fuel (depth + 1) true text items) :
    ReadsValue (fuel + 1) depth ('[' :: text) (.array items) := by
  intro rest place _
  obtain ⟨os, next, read, shown⟩ := inside rest (place.after '[')
  refine ⟨_, next, ?_, .array place next shown⟩
  have still :
      Cursor.skipBlanks ⟨'[' :: (text ++ rest), place⟩ = ⟨'[' :: (text ++ rest), place⟩ := rfl
  simp [readValue, still, read, tooDeep?_none flat, Except.map]

theorem readsValue_object {fuel depth : Nat} {text : List Char} {members : List (String × Json)}
    (flat : depth < nestingLimit) (inside : ReadsMembers fuel (depth + 1) true text members) :
    ReadsValue (fuel + 1) depth ('\x7b' :: text) (.object members) := by
  intro rest place _
  obtain ⟨os, next, read, shown⟩ := inside rest (place.after '\x7b')
  refine ⟨_, next, ?_, .object place next shown⟩
  have still : Cursor.skipBlanks ⟨'\x7b' :: (text ++ rest), place⟩ =
    ⟨'\x7b' :: (text ++ rest), place⟩ := rfl
  simp [readValue, still, read, tooDeep?_none flat, Except.map]

mutual

theorem readValue_pretty (k : Nat) : (value : Json) → value.isIntegral = true →
    ∀ fuel depth : Nat, (value.pretty k).length < fuel → depth + value.height ≤ nestingLimit →
      ReadsValue fuel depth (value.pretty k) value
  | .null, _, _ + 1, _, _, _ => fun _ _ _ => ⟨_, _, rfl, .null _⟩
  | .bool true, _, _ + 1, _, _, _ => fun _ _ _ => ⟨_, _, rfl, .bool true _⟩
  | .bool false, _, _ + 1, _, _, _ => fun _ _ _ => ⟨_, _, rfl, .bool false _⟩
  | .number (.integer n), integral, fuel + 1, depth, _, _ => readsValue_number integral fuel depth
  | .string s, _, fuel + 1, depth, _, _ => by
    intro rest place _
    obtain ⟨units, closed, scanned, joined⟩ := scanString_quote s.toList rest (place.after '"')
    refine ⟨.string s closed, closed, ?_, .string s closed⟩
    simp [Json.pretty, Json.quote, readValue, readString, Cursor.skipBlanks, Cursor.skipWhile,
      Cursor.isBlank, scanned, joined]
  | .array [], _, fuel + 2, depth, _, flat => by
    simp only [Json.height, Json.itemsHeight] at flat
    exact readsValue_array (by omega) (readItems_end fuel (depth + 1) true [] (by simp))
  | .array (item :: items), integral, fuel + 2, depth, enough, flat => by
    simp only [Json.isIntegral, Json.itemsIntegral, Bool.and_eq_true] at integral
    simp only [Json.height, Json.itemsHeight] at flat
    simp only [Json.pretty, List.length_cons, List.length_append] at enough
    have item := readValue_pretty (k + 1) item integral.1 fuel (depth + 1) (by omega) (by omega)
    have others := readItems_pretty (k + 1) k items integral.2 fuel (depth + 1) (by omega)
      (by omega)
    have inside := readItems_cons true (k + 1) (begins_pretty (k + 1) _ integral.1) item
      (fun rest => by simpa using follows_prettyItems (k + 1) k items (']' :: rest)) others
    simpa [Json.pretty, separator] using readsValue_array (by omega) inside
  | .object [], _, fuel + 2, depth, enough, flat => by
    simp only [Json.height, Json.membersHeight] at flat
    exact readsValue_object (by omega) (readMembers_end fuel (depth + 1) true [] (by simp))
  | .object ((name, value) :: members), integral, fuel + 2, depth, enough, flat => by
    simp only [Json.isIntegral, Json.membersIntegral, Bool.and_eq_true] at integral
    simp only [Json.height, Json.membersHeight] at flat
    simp only [Json.pretty, List.length_cons, List.length_append] at enough
    have value := readValue_pretty (k + 1) value integral.1 fuel (depth + 1) (by omega) (by omega)
    have others := readMembers_pretty (k + 1) k members integral.2 fuel (depth + 1) (by omega)
      (by omega)
    have inside := readMembers_cons true (k + 1) name (begins_pretty (k + 1) _ integral.1) value
      (fun rest => by simpa using follows_prettyMembers (k + 1) k members ('\x7d' :: rest)) others
    simpa [Json.pretty, separator, memberText] using readsValue_object (by omega) inside

theorem readItems_pretty (k j : Nat) : (items : List Json) → Json.itemsIntegral items = true →
    ∀ fuel depth : Nat, (Json.prettyItems k items).length < fuel →
      depth + Json.itemsHeight items ≤ nestingLimit →
        ReadsItems fuel depth false (Json.prettyItems k items ++ (Json.newLine j ++ [']'])) items
  | [], _, fuel + 1, depth, _, _ => readItems_end fuel depth false _ (isBlank_newLine j)
  | item :: items, integral, fuel + 1, depth, enough, flat => by
    simp only [Json.itemsIntegral, Bool.and_eq_true] at integral
    simp only [Json.itemsHeight] at flat
    simp only [Json.prettyItems, List.length_cons, List.length_append] at enough
    have item := readValue_pretty k item integral.1 fuel depth (by omega) (by omega)
    have others := readItems_pretty k j items integral.2 fuel depth (by omega) (by omega)
    have all := readItems_cons false k (begins_pretty k _ integral.1) item
      (fun rest => by simpa using follows_prettyItems k j items (']' :: rest)) others
    simpa [Json.prettyItems, separator] using all

theorem readMembers_pretty (k j : Nat) : (members : List (String × Json)) →
    Json.membersIntegral members = true → ∀ fuel depth : Nat,
      (Json.prettyMembers k members).length < fuel →
        depth + Json.membersHeight members ≤ nestingLimit →
          ReadsMembers fuel depth false
            (Json.prettyMembers k members ++ (Json.newLine j ++ ['\x7d'])) members
  | [], _, fuel + 1, depth, _, _ => readMembers_end fuel depth false _ (isBlank_newLine j)
  | (name, value) :: members, integral, fuel + 1, depth, enough, flat => by
    simp only [Json.membersIntegral, Bool.and_eq_true] at integral
    simp only [Json.membersHeight] at flat
    simp only [Json.prettyMembers, List.length_cons, List.length_append] at enough
    have value := readValue_pretty k value integral.1 fuel depth (by omega) (by omega)
    have others := readMembers_pretty k j members integral.2 fuel depth (by omega) (by omega)
    have all := readMembers_cons false k name (begins_pretty k _ integral.1) value
      (fun rest => by simpa using follows_prettyMembers k j members ('\x7d' :: rest)) others
    simpa [Json.prettyMembers, separator, memberText] using all

end

/-- The text of a value reads back, with nothing wrong in it or behind it. -/
theorem Document.read_pretty {value : Json} (fits : value.Fits nestingLimit) :
    ∃ o, Document.read (value.toPrettyText ++ "\n") = ⟨o, none⟩ ∧ o.Shows value := by
  have text : (value.toPrettyText ++ "\n").toList = value.pretty 0 ++ ['\n'] := by
    simp [Json.toPrettyText]
  have follows : Follows ['\n'] := by
    intro c first
    exact .inr (Option.some.inj first).symm
  have flat := fits.flat
  obtain ⟨o, next, read, shown⟩ := readValue_pretty 0 value fits.integral
    (2 * (value.pretty 0 ++ ['\n']).length + 2) 0
    (by rw [List.length_append]; omega) (by omega) ['\n'] .first follows
  refine ⟨o, ?_, shown⟩
  have line : Cursor.skipBlanks ⟨['\n'], next⟩ = ⟨[], next.after '\n'⟩ := rfl
  simp only [Document.read, Cursor.ofString, text, read, line, List.isEmpty_nil, if_true]

end ResourceSql
