/-
Reading a text from left to right. A scanner takes some of the text away and
says what stood there; `Reads p t v rest` says that it takes `t` from before
`rest` and finds `v` there. Scanners are put together by `bind`, and their
readings with them (`Reads.bind`). A scanner may look at what comes next before
it decides, so a reading often asks that none of certain words comes next; this
follows from what does come next when the two differ somewhere (`Begins.skip`).
-/
import ResourceSql.Sql.Rendering

namespace ResourceSql.Sql

abbrev Scanner := StateT (List Char) Option

/-- What follows a word in a text that begins with it. -/
def skip : List Char → List Char → Option (List Char)
  | [], text => some text
  | _ :: _, [] => none
  | c :: word, c' :: text => if c = c' then skip word text else none

theorem skip_append (word text : List Char) : skip word (word ++ text) = some text := by
  induction word with
  | nil => rfl
  | cons c word ih =>
    rw [List.cons_append, skip, if_pos rfl]
    exact ih

theorem skip_append_append (first word text : List Char) :
    skip (first ++ word) (first ++ text) = skip word text := by
  induction first with
  | nil => rfl
  | cons c first ih =>
    rw [List.cons_append, List.cons_append, skip, if_pos rfl]
    exact ih

theorem eq_append_of_skip {word text rest : List Char} (h : skip word text = some rest) :
    text = word ++ rest := by
  induction word generalizing text with
  | nil =>
    cases h
    rfl
  | cons c word ih =>
    cases text with
    | nil => cases h
    | cons c' text =>
      rw [skip] at h
      split at h
      · next same => rw [same, List.cons_append, ← ih h]
      · cases h

/-! ## What a text begins with -/

/-- The words differ at some place, so no text begins with both. -/
def clash (a b : String) : Bool := (a.toList.zip b.toList).any fun (x, y) => x != y

/-- One of the words comes first. -/
def Begins (words : List String) (text : List Char) : Prop :=
  ∃ w ∈ words, ∃ rest, text = w.toList ++ rest

/-- The text is over, or one of the words comes first. -/
def Ends (words : List String) (text : List Char) : Prop := text = [] ∨ Begins words text

theorem skip_of_clash {a b : List Char} (h : (a.zip b).any (fun (x, y) => x != y) = true)
    (rest : List Char) : skip b (a ++ rest) = none := by
  induction a generalizing b with
  | nil => simp at h
  | cons x a ih =>
    cases b with
    | nil => simp at h
    | cons y b =>
      rw [List.cons_append, skip]
      split
      · next same =>
        subst same
        exact ih (by simpa using h)
      · rfl

theorem Begins.intro {words : List String} {w : String} (h : w ∈ words) (rest : List Char) :
    Begins words (w.toList ++ rest) := ⟨w, h, rest, rfl⟩

theorem Begins.mono {words more : List String} {text : List Char} (h : Begins words text)
    (sub : ∀ w ∈ words, w ∈ more) : Begins more text := by
  obtain ⟨w, member, rest, rfl⟩ := h
  exact ⟨w, sub w member, rest, rfl⟩

theorem Begins.shorten {words more : List String} {text : List Char} (h : Begins words text)
    (each : (words.all fun w => more.any fun m => m.toList.isPrefixOf w.toList) = true) :
    Begins more text := by
  obtain ⟨w, member, rest, rfl⟩ := h
  obtain ⟨m, listed, first⟩ := List.any_eq_true.1 (List.all_eq_true.1 each w member)
  obtain ⟨tail, shape⟩ := List.isPrefixOf_iff_prefix.1 first
  exact ⟨m, listed, tail ++ rest, by rw [← shape, List.append_assoc]⟩

theorem Begins.split {f g : List String} {text : List Char} (h : Begins (f ++ g) text) :
    Begins f text ∨ Begins g text := by
  obtain ⟨w, member, rest, rfl⟩ := h
  rcases List.mem_append.1 member with member | member
  · exact .inl (.intro member rest)
  · exact .inr (.intro member rest)

theorem Begins.behind {words : List String} {text : List Char} (h : Begins words text)
    (first : String) : Begins (words.map (first ++ ·)) (first.toList ++ text) := by
  obtain ⟨w, member, rest, rfl⟩ := h
  refine ⟨first ++ w, List.mem_map_of_mem member, rest, ?_⟩
  rw [String.toList_append, List.append_assoc]

theorem Begins.skip {words : List String} {text : List Char} (h : Begins words text) {other : String}
    (differ : words.all (clash · other) = true) : skip other.toList text = none := by
  obtain ⟨w, member, rest, rfl⟩ := h
  exact skip_of_clash (List.all_eq_true.1 differ w member) rest

theorem Ends.intro {words : List String} {w : String} (h : w ∈ words) (rest : List Char) :
    Ends words (w.toList ++ rest) := .inr (.intro h rest)

theorem Ends.mono {words more : List String} {text : List Char} (h : Ends words text)
    (sub : ∀ w ∈ words, w ∈ more) : Ends more text :=
  h.imp id fun begins => begins.mono sub

theorem Ends.skip {words : List String} {text : List Char} (h : Ends words text) {other : String}
    (differ : words.all (clash · other) = true) (some : other.toList ≠ []) :
    skip other.toList text = none := by
  rcases h with rfl | begins
  · cases shape : other.toList with
    | nil => exact absurd shape some
    | cons c word => rfl
  · exact begins.skip differ

/-- No identifier and no number goes on here. -/
def breaks : List Char → Bool
  | [] => true
  | c :: _ => !c.isDigit && c ∉ ['"', '\x60', ']']

/-- What the first character decides is decided by a word that comes first. -/
theorem of_first (f : List Char → Bool) (first : ∀ c text, f (c :: text) = f [c]) {word : List Char}
    (some : word ≠ []) (rest : List Char) : f (word ++ rest) = f word := by
  cases word with
  | nil => exact absurd rfl some
  | cons c word => rw [List.cons_append, first c (word ++ rest), first c word]

theorem breaks_append {word : String} (h : word.toList ≠ [] ∧ breaks word.toList = true)
    (rest : List Char) : breaks (word.toList ++ rest) = true := by
  rw [of_first breaks (fun _ _ => rfl) h.1 rest]
  exact h.2

theorem Ends.breaks {words : List String} {text : List Char} (h : Ends words text)
    (each : ∀ w ∈ words, w.toList ≠ [] ∧ breaks w.toList = true) : breaks text = true := by
  rcases h with rfl | ⟨w, member, rest, rfl⟩
  · rfl
  · exact breaks_append (each w member) rest

/-! ## Putting scanners together -/

/-- The scanner takes `written` away from before `rest`, and finds the value there. -/
def Reads {α : Type} (p : Scanner α) (written : List Char) (value : α) (rest : List Char) : Prop :=
  p (written ++ rest) = some (value, rest)

namespace Scanner

def word (w : String) : Scanner Unit := fun text => (skip w.toList text).map ((), ·)

/-- Goes on by whether a word comes next, and takes it away if so. -/
def ifSees {α : Type} (w : String) (yes no : Scanner α) : Scanner α := fun text =>
  match skip w.toList text with
  | some rest => yes rest
  | none => no text

/-- Goes on by whether a word comes next, and leaves it there. -/
def ifAhead {α : Type} (w : String) (yes no : Scanner α) : Scanner α := fun text =>
  if (skip w.toList text).isSome then yes text else no text

def bracketed {α : Type} (p : Scanner α) : Scanner α := do
  word "("
  let value ← p
  word ")"
  pure value

/-- As many as come one after another, but at most `n`, each behind the separator. -/
def more {α : Type} (separator : String) (item : Scanner α) : Nat → Scanner (List α)
  | 0 => pure []
  | n + 1 =>
    ifSees separator (do
      let value ← item
      let values ← more separator item n
      pure (value :: values)) (pure [])

/-- Items start neither with a blank nor with a bracket that closes. -/
def noItem : List Char → Bool
  | [] => true
  | c :: _ => c = ' ' || c = ')'

/-- As many as come one after another, with the separator between them. -/
def listOf {α : Type} (separator : String) (item : Scanner α) (n : Nat) : Scanner (List α) :=
  fun text =>
    if noItem text then some ([], text)
    else (do
      let value ← item
      let values ← more separator item n
      pure (value :: values) : Scanner (List α)) text

end Scanner

theorem Scanner.bind_eq_some {α β : Type} {p : Scanner α} {f : α → Scanner β} {v : β}
    {text rest : List Char} (run : (p >>= f) text = some (v, rest)) :
    ∃ a left, p text = some (a, left) ∧ f a left = some (v, rest) := by
  obtain ⟨⟨a, left⟩, first, second⟩ := Option.bind_eq_some_iff.1 run
  exact ⟨a, left, first, second⟩

namespace Reads

variable {α β : Type} {p : Scanner α} {t : List Char} {v : α} {rest : List Char}

theorem pure (v : α) (rest : List Char) : Reads (Pure.pure v) [] v rest := rfl

theorem bind {f : α → Scanner β} {u : List Char} {y : β} (first : Reads p t v (u ++ rest))
    (second : Reads (f v) u y rest) : Reads (p >>= f) (t ++ u) y rest := by
  show (p (t ++ u ++ rest)).bind (fun (a, left) => f a left) = some (y, rest)
  rw [List.append_assoc, first]
  exact second

/-- After what is read a scanner goes on with what follows. -/
theorem onward {f : α → Scanner β} (h : Reads p t v rest) : (p >>= f) (t ++ rest) = f v rest := by
  show (p (t ++ rest)).bind (fun (a, left) => f a left) = f v rest
  rw [h]
  rfl

theorem last {f : α → β} (h : Reads p t v rest) :
    Reads (p >>= fun v => Pure.pure (f v)) t (f v) rest := by
  rw [← List.append_nil t]
  exact bind h (pure (f v) rest)

theorem map (f : α → β) (h : Reads p t v rest) : Reads (f <$> p) t (f v) rest := by
  rw [← bind_pure_comp]
  exact last h

theorem word (w : String) (rest : List Char) : Reads (Scanner.word w) w.toList () rest := by
  show (Sql.skip w.toList (w.toList ++ rest)).map ((), ·) = some ((), rest)
  rw [skip_append]
  rfl

theorem seen {w : String} {yes no : Scanner α} (h : Reads yes t v rest) :
    Reads (Scanner.ifSees w yes no) (w.toList ++ t) v rest := by
  unfold Reads Scanner.ifSees
  rw [List.append_assoc, skip_append]
  exact h

theorem unseen {w : String} {yes no : Scanner α} (absent : skip w.toList (t ++ rest) = none)
    (h : Reads no t v rest) : Reads (Scanner.ifSees w yes no) t v rest := by
  unfold Reads Scanner.ifSees
  rw [absent]
  exact h

theorem ahead {w : String} {yes no : Scanner α} (there : Begins [w] (t ++ rest))
    (h : Reads yes t v rest) : Reads (Scanner.ifAhead w yes no) t v rest := by
  obtain ⟨_, same, u, shape⟩ := there
  obtain rfl := List.mem_singleton.1 same
  unfold Reads Scanner.ifAhead
  rw [shape, skip_append, ← shape]
  exact h

theorem elsewhere {w : String} {yes no : Scanner α} (absent : skip w.toList (t ++ rest) = none)
    (h : Reads no t v rest) : Reads (Scanner.ifAhead w yes no) t v rest := by
  unfold Reads Scanner.ifAhead
  rw [absent]
  exact h

theorem bracketed (h : Reads p t v (")".toList ++ rest)) :
    Reads (Scanner.bracketed p) ("(".toList ++ (t ++ ")".toList)) v rest := by
  refine bind (word "(" _) (bind h ?_)
  exact bind (t := ")".toList) (u := []) (word ")" _) (pure v rest)

end Reads

/-! ## Lists -/

theorem Begins.item {words : List String} {text : List Char} (h : Begins words text)
    (each : ∀ w ∈ words, w.toList ≠ [] ∧ Scanner.noItem w.toList = false) :
    Scanner.noItem text = false := by
  obtain ⟨w, member, rest, rfl⟩ := h
  rw [of_first Scanner.noItem (fun _ _ => rfl) (each w member).1 rest]
  exact (each w member).2

theorem Ends.noItem {words : List String} {text : List Char} (h : Ends words text)
    (each : ∀ w ∈ words, w.toList ≠ [] ∧ Scanner.noItem w.toList = true) :
    Scanner.noItem text = true := by
  rcases h with rfl | ⟨w, member, rest, rfl⟩
  · rfl
  · rw [of_first Scanner.noItem (fun _ _ => rfl) (each w member).1 rest]
    exact (each w member).2

/-- Texts with a separator between them. -/
def joined (separator : String) : List (List Char) → List Char
  | [] => []
  | text :: texts => text ++ texts.flatMap (separator.toList ++ ·)

section Lists

variable {α β : Type} {items : List β} {write : β → List Char} {value : β → α} {item : Scanner α}
  {after : List Char → Prop} {separator : String}

theorem Reads.more (after : List Char → Prop)
    (each : ∀ x ∈ items, ∀ rest, after rest → Reads item (write x) (value x) rest)
    (between : ∀ rest, after (separator.toList ++ rest)) {n : Nat} (enough : items.length ≤ n)
    {rest : List Char} (behind : after rest) (absent : skip separator.toList rest = none) :
    Reads (Scanner.more separator item n) ((items.map write).flatMap (separator.toList ++ ·))
      (items.map value) rest := by
  induction items generalizing n with
  | nil =>
    cases n with
    | zero => exact .pure [] rest
    | succ n => exact .unseen absent (.pure [] rest)
  | cons x items ih =>
    obtain ⟨n, rfl⟩ : ∃ m, n = m + 1 := ⟨n - 1, by rw [List.length_cons] at enough; omega⟩
    have others := ih (fun y member => each y (List.mem_cons_of_mem _ member))
      (Nat.le_of_succ_le_succ enough)
    rw [List.map_cons, List.flatMap_cons, List.append_assoc]
    refine .seen (.bind (each x (List.mem_cons_self ..) _ ?_) (.last others))
    cases items with
    | nil => exact behind
    | cons y items =>
      rw [List.map_cons, List.flatMap_cons, List.append_assoc, List.append_assoc]
      exact between _

theorem Reads.listOf (after : List Char → Prop)
    (each : ∀ x ∈ items, ∀ rest, after rest → Reads item (write x) (value x) rest)
    (between : ∀ rest, after (separator.toList ++ rest)) {n : Nat} (enough : items.length ≤ n)
    {rest : List Char} (behind : after rest) (absent : skip separator.toList rest = none)
    (starts : ∀ x ∈ items, ∀ rest, Scanner.noItem (write x ++ rest) = false)
    (stops : Scanner.noItem rest = true) :
    Reads (Scanner.listOf separator item n) (joined separator (items.map write)) (items.map value)
      rest := by
  cases items with
  | nil =>
    show Scanner.listOf separator item n rest = some ([], rest)
    unfold Scanner.listOf
    rw [if_pos stops]
  | cons x items =>
    have others := Reads.more after
      (fun y member => each y (List.mem_cons_of_mem _ member)) between
      (Nat.le_of_succ_le enough) behind absent
    unfold Reads Scanner.listOf
    rw [if_neg]
    · refine Reads.bind (each x (List.mem_cons_self ..) _ ?_) (.last others)
      cases items with
      | nil => exact behind
      | cons y items =>
        rw [List.map_cons, List.flatMap_cons, List.append_assoc, List.append_assoc]
        exact between _
    · rw [List.map_cons, joined, List.append_assoc, starts x (List.mem_cons_self ..)]
      exact Bool.false_ne_true

end Lists

/-! ## Numbered names -/

/-- A name that is a mark with digits behind it. -/
def isNumbered (mark name : String) : Bool :=
  match skip mark.toList name.toList with
  | none => false
  | some digits => !digits.isEmpty && digits.all Char.isDigit

namespace Scanner

def digits : Scanner (List Char) := fun text =>
  some (text.takeWhile Char.isDigit, text.dropWhile Char.isDigit)

def number : Scanner Nat := Digits.toNat <$> digits

def numbered (mark : String) : Scanner String := do
  word mark
  let behind ← digits
  pure (String.ofList (mark.toList ++ behind))

end Scanner

theorem no_digit_of_breaks {rest : List Char} (stops : breaks rest = true) :
    rest.takeWhile Char.isDigit = [] ∧ rest.dropWhile Char.isDigit = rest := by
  cases rest with
  | nil => exact ⟨rfl, rfl⟩
  | cons c rest =>
    have other : c.isDigit = false := by
      rw [breaks, Bool.and_eq_true, Bool.not_eq_true'] at stops
      exact stops.1
    constructor
    · rw [List.takeWhile_cons, other]
      rfl
    · rw [List.dropWhile_cons, other]
      rfl

theorem Reads.digits {ds rest : List Char} (each : ∀ c ∈ ds, c.isDigit = true)
    (stops : breaks rest = true) : Reads Scanner.digits ds ds rest := by
  have ⟨taken, left⟩ := no_digit_of_breaks stops
  show some ((ds ++ rest).takeWhile Char.isDigit, (ds ++ rest).dropWhile Char.isDigit) = some (ds, rest)
  rw [List.takeWhile_append_of_pos each, List.dropWhile_append_of_pos each, taken, left,
    List.append_nil]

theorem Reads.number (n : Nat) {rest : List Char} (stops : breaks rest = true) :
    Reads Scanner.number (Digits.ofNat n) n rest := by
  have each := Reads.digits (fun _ member => Digits.isDigit_of_mem_ofNat (n := n) member) stops
  have value := each.map Digits.toNat
  rw [Digits.toNat_ofNat] at value
  exact value

theorem toList_of_isNumbered {mark name : String} (h : isNumbered mark name = true) :
    ∃ ds, name.toList = mark.toList ++ ds ∧ ds ≠ [] ∧ ∀ c ∈ ds, c.isDigit = true := by
  unfold isNumbered at h
  split at h
  · cases h
  · next ds found =>
    rw [Bool.and_eq_true, Bool.not_eq_true', List.all_eq_true] at h
    exact ⟨ds, eq_append_of_skip found, List.isEmpty_eq_false_iff.1 h.1, h.2⟩

theorem Reads.numbered {mark name : String} (h : isNumbered mark name = true) {rest : List Char}
    (stops : breaks rest = true) : Reads (Scanner.numbered mark) name.toList name rest := by
  obtain ⟨ds, shape, -, each⟩ := toList_of_isNumbered h
  have whole : name = String.ofList (mark.toList ++ ds) := by rw [← shape, String.ofList_toList]
  have reads := (Reads.word mark _).bind
    (f := fun _ => Scanner.digits >>= fun behind => Pure.pure (String.ofList (mark.toList ++ behind)))
    (Reads.digits each stops).last
  rw [← whole, ← shape] at reads
  exact reads

/-! ## Identifiers -/

/-- The text up to a mark that is not doubled, and what follows the mark. A doubled mark stands
for a single one. -/
def unquote (mark : Char) : List Char → Option (List Char × List Char)
  | [] => none
  | [c] => if c = mark then some ([], []) else none
  | c :: c' :: text =>
    if c ≠ mark then (unquote mark (c' :: text)).map fun (name, rest) => (c :: name, rest)
    else if c' = mark then (unquote mark text).map fun (name, rest) => (mark :: name, rest)
    else some ([], c' :: text)

/-- An identifier between the marks of the dialect. -/
def Scanner.quoted (d : Dialect) : Scanner String
  | [] => none
  | c :: text =>
    if c = d.openingMark then
      (unquote d.closingMark text).map fun (name, rest) => (String.ofList name, rest)
    else none

theorem unquote_end {mark : Char} {rest : List Char} (stops : rest.head? ≠ some mark) :
    unquote mark (mark :: rest) = some ([], rest) := by
  cases rest with
  | nil =>
    rw [unquote, if_pos rfl]
  | cons c rest =>
    have other : c ≠ mark := fun same => stops (congrArg some same)
    rw [unquote, if_neg (fun differ => differ rfl), if_neg other]

theorem unquote_double (mark : Char) (name : List Char) {rest : List Char}
    (stops : rest.head? ≠ some mark) :
    unquote mark (Dialect.double mark name ++ mark :: rest) = some (name, rest) := by
  induction name with
  | nil => exact unquote_end stops
  | cons c name ih =>
    by_cases same : c = mark
    · subst same
      have doubled : Dialect.double c (c :: name) = c :: c :: Dialect.double c name := by
        rw [Dialect.double, List.flatMap_cons, if_pos rfl]
        rfl
      rw [doubled, List.cons_append, List.cons_append, unquote, if_neg (fun differ => differ rfl),
        if_pos rfl, ih]
      rfl
    · have single : Dialect.double mark (c :: name) = c :: Dialect.double mark name := by
        rw [Dialect.double, List.flatMap_cons, if_neg same]
        rfl
      rw [single, List.cons_append]
      -- At least the closing mark follows, so the character is not the last one.
      cases shape : Dialect.double mark name ++ mark :: rest with
      | nil => simp at shape
      | cons c' text =>
        rw [unquote, if_pos same, ← shape, ih]
        rfl

/-- At least the closing mark is taken away. -/
theorem length_lt_of_unquote {mark : Char} {text name rest : List Char}
    (h : unquote mark text = some (name, rest)) : rest.length < text.length := by
  -- a character goes to the name, and the rest is read as before
  have longer {c : Char} {behind name rest : List Char}
      (ih : ∀ {name}, unquote mark behind = some (name, rest) → rest.length < behind.length)
      (h : (unquote mark behind).map (fun (name, rest) => (c :: name, rest)) = some (name, rest)) :
      rest.length < behind.length := by
    obtain ⟨⟨taken, left⟩, found, shape⟩ := Option.map_eq_some_iff.1 h
    obtain ⟨-, rfl⟩ := Prod.mk.inj shape
    exact ih found
  induction text using unquote.induct mark generalizing name with
  | case1 => cases h
  | case2 =>
    rw [unquote, if_pos rfl] at h
    cases h
    exact Nat.zero_lt_one
  | case3 c differ =>
    rw [unquote, if_neg differ] at h
    cases h
  | case4 c c' text differ ih =>
    rw [unquote, if_pos differ] at h
    exact Nat.lt_succ_of_lt (longer ih h)
  | case5 c text same ih =>
    rw [unquote, if_neg same, if_pos rfl] at h
    exact Nat.lt_succ_of_lt (Nat.lt_succ_of_lt (longer ih h))
  | case6 c c' text same differ =>
    rw [unquote, if_neg same, if_neg differ] at h
    cases h
    exact Nat.lt_succ_self _

theorem head_ne_closingMark (d : Dialect) {rest : List Char} (stops : breaks rest = true) :
    rest.head? ≠ some d.closingMark := by
  cases rest with
  | nil => simp
  | cons c rest =>
    rw [breaks, Bool.and_eq_true, decide_eq_true_iff] at stops
    rintro same
    obtain rfl : c = d.closingMark := Option.some.inj same
    exact stops.2 (by cases d <;> decide)

theorem Reads.quoted_of_head (d : Dialect) (name : String) {rest : List Char}
    (stops : rest.head? ≠ some d.closingMark) :
    Reads (Scanner.quoted d) (d.quoteChars name.toList) name rest := by
  have body := unquote_double d.closingMark name.toList stops
  show Scanner.quoted d (d.openingMark :: _ ++ rest) = some (name, rest)
  rw [List.cons_append, List.append_assoc, List.singleton_append, Scanner.quoted, if_pos rfl, body]
  show some (String.ofList name.toList, rest) = some (name, rest)
  rw [String.ofList_toList]

theorem Reads.quoted (d : Dialect) (name : String) {rest : List Char} (stops : breaks rest = true) :
    Reads (Scanner.quoted d) (d.quoteChars name.toList) name rest :=
  .quoted_of_head d name (head_ne_closingMark d stops)

/-- What an identifier begins with. -/
def quotedHeads : List String := ["\"", "\x60", "["]

theorem begins_quoteChars (d : Dialect) (name rest : List Char) :
    Begins quotedHeads (d.quoteChars name ++ rest) := by
  cases d with
  | postgreSql => exact .intro (w := "\"") (by decide) _
  | mySql => exact .intro (w := "\x60") (by decide) _
  | sqlServer => exact .intro (w := "[") (by decide) _

end ResourceSql.Sql
