/-
Names in a text cannot be left early. A reader of quoted identifiers takes a whole
identifier away from before any text that does not begin with the closing mark
(`Reads.quoted_of_head`), so that different names are quoted differently
(`Dialect.quote_injective`). In the fragments of a statement words stand behind
every identifier and every placeholder and part it from what comes next, so that
the condition on the text is met wherever an identifier is written. If moreover
the aliases are regular, nothing but an identifier opens an identifier, and
nothing but a placeholder begins like one; a reader who knows nothing of the
language but how these two look then finds exactly those of the statement, in
their order (`Statement.marksIn_text`). Both are proved in one induction over
trees (`Laid`).
-/
import Mathlib.Data.List.Chain
import ResourceSql.Proofs.Reading
import ResourceSql.Proofs.Visibility

namespace ResourceSql

open Sql in
theorem Dialect.quote_injective (d : Dialect) : Function.Injective d.quote := by
  intro name other same
  have reads (name : String) : Scanner.quoted d (d.quote name).toList = some (name, []) := by
    have whole : Reads (Scanner.quoted d) (d.quoteChars name.toList) name [] :=
      .quoted_of_head d name (by simp)
    rw [Reads, List.append_nil] at whole
    rw [quote, String.toList_ofList, whole]
  have found := reads name
  rw [same, reads other] at found
  cases found
  rfl

namespace Sql

/-! ## Names among fragments -/

/-- The characters that may stand behind a name. None of them goes on with a name that is not
quoted, or closes one that is. -/
def parting (c : Char) : Bool := c ∈ [' ', ')', ',', '.', ';']

/-- Words that a name does not go on into. -/
def Fragment.parts : Fragment → Bool
  | words w => w.toList.head?.any parting
  | _ => false

/-- The second fragment may come right behind the first. -/
def Fragment.Fits : Fragment → Fragment → Prop
  | words _, _ => True
  | _, next => next.parts = true

theorem Fragment.Fits.of_parts (f : Fragment) {next : Fragment} (parts : next.parts = true) :
    f.Fits next := by
  cases f with
  | identifier | parameter => exact parts
  | words => trivial

/-- Neither an identifier opens here nor a placeholder. -/
def isPlain (w : String) : Bool := w.toList.all (· ∉ ['"', '\x60', '[', '@'])

def Fragment.isPlain : Fragment → Bool
  | words w => Sql.isPlain w
  | parameter _ | identifier _ => true

/-- Behind every identifier and every placeholder stand words that part it from what comes next, or
nothing; and if the names that are written without quotes are aliases, only identifiers open
identifiers, and only placeholders begin like them. -/
structure Laid (names : List String) (fs : List Fragment) : Prop where
  parted : fs.IsChain Fragment.Fits
  plain : (∀ a ∈ names, isAlias a = true) → ∀ f ∈ fs, f.isPlain = true

/-- Fragments that may come behind a name. -/
structure Follows (names : List String) (fs : List Fragment) : Prop extends Laid names fs where
  parts : ∀ f ∈ fs.head?, f.parts = true

/-- Each of several sequences of fragments. -/
def LaidEach (names : List String) (fss : List (List Fragment)) : Prop := ∀ fs ∈ fss, Laid names fs

namespace Laid

variable {ns ms : List String} {fs gs : List Fragment}

theorem nil : Laid ns [] := ⟨.nil, by simp⟩

theorem mono (h : Laid ns fs) (sub : ns ⊆ ms) : Laid ms fs :=
  ⟨h.parted, fun regular => h.plain fun a member => regular a (sub member)⟩

theorem words {w : String} (plain : isPlain w = true) (h : Laid ns fs) : Laid ns (.words w :: fs) where
  parted := h.parted.cons fun _ _ => trivial
  plain regular := List.forall_mem_cons.2 ⟨plain, h.plain regular⟩

theorem identifier (name : String) (h : Follows ns fs) : Laid ns (.identifier name :: fs) where
  parted := h.parted.cons h.parts
  plain regular := List.forall_mem_cons.2 ⟨rfl, h.plain regular⟩

theorem parameter (p : Parameter) (h : Follows ns fs) : Laid ns (.parameter p :: fs) where
  parted := h.parted.cons h.parts
  plain regular := List.forall_mem_cons.2 ⟨rfl, h.plain regular⟩

theorem append (h : Laid ns fs) (follows : Follows ns gs) : Laid ns (fs ++ gs) where
  parted := List.IsChain.append h.parted follows.parted fun f _ g first =>
    .of_parts f (follows.parts g first)
  plain regular := List.forall_mem_append.2 ⟨h.plain regular, follows.plain regular⟩

end Laid

namespace Follows

variable {ns ms : List String} {fs gs : List Fragment}

theorem nil : Follows ns [] := ⟨.nil, by simp⟩

theorem mono (h : Follows ns fs) (sub : ns ⊆ ms) : Follows ms fs := ⟨h.toLaid.mono sub, h.parts⟩

theorem words {w : String} (parts : (Fragment.words w).parts = true) (plain : isPlain w = true)
    (h : Laid ns fs) : Follows ns (.words w :: fs) where
  toLaid := .words plain h
  parts f first := by
    obtain rfl := Option.some.inj first
    exact parts

theorem spaced (h : Laid ns fs) : Follows ns (spaced fs) := .words rfl rfl h

theorem append (h : Follows ns fs) (h' : Follows ns gs) : Follows ns (fs ++ gs) where
  toLaid := h.toLaid.append h'
  parts f first := by
    cases fs with
    | nil => exact h'.parts f first
    | cons g fs => exact h.parts f first

end Follows

section

variable {ns ms : List String} {fs gs : List Fragment}

theorem Laid.append_names (h : Laid ns fs) (h' : Follows ms gs) : Laid (ns ++ ms) (fs ++ gs) :=
  (h.mono (List.subset_append_left ..)).append (h'.mono (List.subset_append_right ..))

theorem Follows.append_names (h : Follows ns fs) (h' : Follows ms gs) :
    Follows (ns ++ ms) (fs ++ gs) :=
  (h.mono (List.subset_append_left ..)).append (h'.mono (List.subset_append_right ..))

theorem Laid.bracketed (h : Laid ns fs) : Laid ns (bracketed fs) :=
  .words rfl (h.append (.words rfl rfl .nil))

theorem Laid.separated {separator : String} (parts : (Fragment.words separator).parts = true)
    (plain : isPlain separator = true) {fss : List (List Fragment)} (each : LaidEach ns fss) :
    Laid ns (separated separator fss) := by
  induction fss with
  | nil => exact .nil
  | cons fs fss ih =>
    obtain ⟨first, others⟩ := List.forall_mem_cons.1 each
    cases fss with
    | nil => exact first
    | cons gs fss => exact first.append (.words parts plain (ih others))

theorem LaidEach.mono {fss : List (List Fragment)} (each : LaidEach ns fss) (sub : ns ⊆ ms) :
    LaidEach ms fss := fun fs member => (each fs member).mono sub

theorem LaidEach.cons {fss : List (List Fragment)} (h : Laid ns fs) (each : LaidEach ms fss) :
    LaidEach (ns ++ ms) (fs :: fss) :=
  List.forall_mem_cons.2
    ⟨h.mono (List.subset_append_left ..), each.mono (List.subset_append_right ..)⟩

theorem LaidEach.map {α : Type} {f : α → List String} {write : α → List Fragment}
    (each : ∀ a, Laid (f a) (write a)) (as : List α) : LaidEach (as.flatMap f) (as.map write) :=
  List.forall_mem_map.2 fun a member => (each a).mono fun _ given => List.mem_flatMap.2 ⟨a, member, given⟩

end

/-! ## Names that are not quoted -/

theorem isPlain_digits {ds : List Char} (each : ∀ c ∈ ds, c.isDigit = true) :
    ds.all (· ∉ ['"', '\x60', '[', '@']) = true := by
  refine List.all_eq_true.2 fun c member => decide_eq_true fun mark => ?_
  have digit := each c member
  simp only [List.mem_cons, List.not_mem_nil, or_false] at mark
  rcases mark with rfl | rfl | rfl | rfl <;> exact absurd digit (by decide)

theorem isPlain_of_isAlias {name : String} (regular : isAlias name = true) : isPlain name = true := by
  obtain ⟨ds, shape, -, each⟩ := toList_of_isNumbered regular
  rw [isPlain, shape, List.all_append, isPlain_digits each]
  rfl

section

variable {ns : List String} {fs : List Fragment}

theorem Laid.alias {name : String} (given : name ∈ ns) (h : Laid ns fs) :
    Laid ns (.words name :: fs) where
  parted := h.parted.cons fun _ _ => trivial
  plain regular :=
    List.forall_mem_cons.2 ⟨isPlain_of_isAlias (regular name given), h.plain regular⟩

theorem Laid.number (n : Nat) (h : Laid ns fs) : Laid ns (numberFragment n :: fs) := by
  refine .words ?_ h
  rw [isPlain, String.toList_ofList]
  exact isPlain_digits fun _ member => Digits.isDigit_of_mem_ofNat member

theorem follows_aliasFragments (aliasName : Option String) :
    Follows aliasName.toList (aliasFragments aliasName) := by
  cases aliasName with
  | none => exact .nil
  | some name => exact .words rfl rfl (.alias (List.mem_cons_self ..) .nil)

theorem laid_qualified (qualified : Option String) (name : String) :
    Laid qualified.toList (qualifier qualified ++ [.identifier name]) := by
  cases qualified with
  | none => exact .identifier name .nil
  | some aliasName =>
    exact .alias (List.mem_cons_self ..) (.words rfl (.identifier name .nil))

/-! ## Tables, columns and windows -/

theorem Table.laid (t : Table) : Laid t.aliasName.toList t.fragments := by
  obtain ⟨schema, name, aliasName⟩ := t
  have named := Laid.identifier name (follows_aliasFragments aliasName)
  cases schema with
  | none => exact named
  | some schema => exact .identifier schema (.words rfl rfl named)

theorem TableColumn.laid (c : TableColumn) : Laid c.tableAlias.toList c.fragments :=
  laid_qualified _ _

theorem Column.laid (c : Column) : Laid c.mentions c.fragments := laid_qualified _ _

theorem Join.laid (j : Join) : Laid (j.aliases ++ j.mentions) j.fragments := by
  have outer : Follows _ (.words " ON " :: j.outer.fragments) := .words rfl rfl j.outer.laid
  have inner : Follows _ (.words " = " :: j.inner.fragments) := .words rfl rfl j.inner.laid
  have joined := (j.table.laid.append_names outer).append_names inner
  rw [List.append_assoc] at joined
  refine .words ?_ joined
  cases j.kind <;> decide

theorem follows_joins (joins : List Join) :
    Follows (joins.flatMap Join.aliases ++ joins.flatMap Join.mentions)
      (joins.flatMap fun j => spaced j.fragments) := by
  induction joins with
  | nil => exact .nil
  | cons j joins ih =>
    refine ((Follows.spaced j.laid).append_names ih).mono ?_
    simp only [List.flatMap_cons]
    grind

theorem Projection.laid (p : Projection) : Laid p.mentions p.fragments := by
  cases p with
  | columns cs => exact .separated rfl rfl (.map Column.laid cs)
  | one | count => exact .words rfl .nil

theorem follows_countClause {word : String} (parts : (Fragment.words word).parts = true)
    (plain : isPlain word = true) (c : Option Nat) : Follows ns (countClause word c) := by
  cases c with
  | none => exact .nil
  | some n => exact .words parts plain (.number n .nil)

theorem follows_windowFragments (d : Dialect) (ordered : Bool) (w : Window) :
    Follows ns (windowFragments d ordered w) := by
  unfold windowFragments
  split
  · exact .nil
  · cases d with
    | postgreSql => exact (follows_countClause rfl rfl _).append (follows_countClause rfl rfl _)
    | mySql => exact (follows_countClause rfl rfl _).append (follows_countClause rfl rfl _)
    | sqlServer =>
      have order : Follows ns (if ordered then [] else [.words " ORDER BY (SELECT NULL)"]) := by
        split
        · exact .nil
        · exact .words rfl rfl .nil
      refine (order.append (.words rfl rfl (.number _ (.words rfl .nil)))).append ?_
      split
      · exact .nil
      · exact .words rfl rfl (.number _ (.words rfl .nil))

theorem follows_direction (ascending : Bool) : Follows ns (direction ascending) := by
  cases ascending with
  | true => exact .nil
  | false => exact .words rfl rfl .nil

end

/-! ## Selects and conditions -/

theorem laid_comparison {d : Dialect} (operator : Comparison) {left right : Operand}
    {ns ms : List String} (first : Laid ns (left.fragments d)) (second : Laid ms (right.fragments d)) :
    Laid (ns ++ ms) ((Condition.comparison operator left right).fragments d) := by
  rcases comparison_forms d operator left right with ⟨o, side, written, -⟩ | ⟨written, -⟩
  · have tested : Laid (ns ++ ms) (o.fragments d) := by
      rcases side with rfl | rfl
      · exact first.mono (List.subset_append_left ..)
      · exact second.mono (List.subset_append_right ..)
    rw [written]
    exact tested.append (.words rfl rfl .nil)
  · rw [written]
    exact first.append_names
      (.words (by cases operator <;> decide) (by cases operator <;> decide) second)

section

variable (d : Dialect)

-- the names of a tree are those of its parts, but in another order
mutual

theorem Select.laid : (s : Select) → Laid (s.aliases ++ s.mentions) (s.fragments d)
  | ⟨projection, source, joins, filter, order, window, _⟩ => by
    have projected : Laid projection.mentions (.words "SELECT " :: projection.fragments) :=
      .words rfl projection.laid
    have opened := (projected.append_names (.spaced source.laid)).append_names (follows_joins joins)
    have sorted := (opened.append_names (follows_filter filter)).append_names (follows_order order)
    refine (sorted.append (follows_windowFragments d _ window)).mono ?_
    simp only [Select.aliases, Select.mentions]
    grind

theorem Source.laid : (s : Source) → Laid (s.aliases ++ s.mentions) (s.clause d)
  | .table t => (Laid.words rfl t.laid).mono (List.subset_append_left ..)
  | .select s => by
    have inside : Laid _ (.words "FROM " :: bracketed (s.fragments d)) := .words rfl s.laid.bracketed
    refine (inside.append_names (follows_aliasFragments s.aliasName)).mono ?_
    simp only [Source.aliases, Source.mentions]
    grind

theorem follows_filter : (filter : Option Condition) →
    Follows (filterAliases filter ++ filterMentions filter) (filterFragments d filter)
  | none => .nil
  | some c => .spaced (.words rfl c.laid)

theorem follows_order : (order : Option (List OrderTerm)) →
    Follows (orderAliases order ++ orderMentions order) (orderFragments d order)
  | none => .nil
  | some terms => .spaced (.words rfl (.separated rfl rfl (laid_terms terms)))

theorem laid_terms : (terms : List OrderTerm) →
    LaidEach (termAliases terms ++ termMentions terms) (orderTerms d terms)
  | [] => by simp [LaidEach, orderTerms]
  | t :: terms => by
    refine (LaidEach.cons t.laid (laid_terms terms)).mono ?_
    simp only [termAliases, termMentions]
    grind

theorem OrderTerm.laid : (t : OrderTerm) → Laid (t.aliases ++ t.mentions) (t.fragments d)
  | .column c _ => c.laid.append (follows_direction _)
  | .count s _ => s.laid.bracketed.append (follows_direction _)

theorem Condition.laid : (c : Condition) → Laid (c.aliases ++ c.mentions) (c.fragments d)
  | .not child => .words rfl child.laid.bracketed
  | .logical connective first second rest => by
    have others := LaidEach.cons second.laid.bracketed (laid_conditions rest)
    have each := LaidEach.cons first.laid.bracketed others
    refine (Laid.separated (by cases connective <;> decide) (by cases connective <;> decide)
      each).mono ?_
    simp only [Condition.aliases, Condition.mentions]
    grind
  | .comparison operator left right => by
    refine (laid_comparison operator left.laid right.laid).mono ?_
    simp only [Condition.aliases, Condition.mentions]
    grind
  | .like column _ pattern => column.laid.append (.words rfl rfl (.parameter pattern .nil))
  | .isIn column values => by
    have listed : Laid _ (separated ", " (operandTerms d values)) :=
      .separated rfl rfl (laid_operands values)
    refine (column.laid.append_names (.words rfl rfl listed.bracketed)).mono ?_
    simp only [Condition.aliases, Condition.mentions]
    grind
  | .exists select => .words rfl select.laid.bracketed

theorem laid_conditions : (cs : List Condition) →
    LaidEach (conditionAliases cs ++ conditionMentions cs) (bracketedTerms d cs)
  | [] => by simp [LaidEach, bracketedTerms]
  | c :: cs => by
    refine (LaidEach.cons c.laid.bracketed (laid_conditions cs)).mono ?_
    simp only [conditionAliases, conditionMentions]
    grind

theorem Operand.laid : (o : Operand) → Laid (o.aliases ++ o.mentions) (o.fragments d)
  | .column c => c.laid
  | .parameter p => .parameter p .nil
  | .null => .words rfl .nil
  | .count select => select.laid.bracketed

theorem laid_operands : (os : List Operand) →
    LaidEach (operandAliases os ++ operandMentions os) (operandTerms d os)
  | [] => by simp [LaidEach, operandTerms]
  | o :: os => by
    refine (LaidEach.cons o.laid (laid_operands os)).mono ?_
    simp only [operandAliases, operandMentions]
    grind

end

end

/-! ## Statements -/

/-- The names in an assignment that are written without quotes. -/
def Assignment.unquoted (a : Assignment) : List String :=
  a.column.tableAlias.toList ++ (a.value.aliases ++ a.value.mentions)

/-- The names in a statement that are written without quotes. -/
def Statement.unquoted : Statement → List String
  | select s => s.aliases ++ s.mentions
  | insert i => i.table.aliasName.toList ++ i.assignments.flatMap Assignment.unquoted ++
      i.returning.toList.flatMap (·.tableAlias.toList)
  | update u => u.table.aliasName.toList ++ u.assignments.flatMap Assignment.unquoted ++
      (u.filter.aliases ++ u.filter.mentions)
  | delete x => x.table.aliasName.toList ++ (x.filter.aliases ++ x.filter.mentions)

section

variable (d : Dialect)

theorem Assignment.laid (a : Assignment) : Laid a.unquoted (a.fragments d) :=
  a.column.laid.append_names (.words rfl rfl (a.value.laid d))

theorem follows_output {ns : List String} (returning : Option TableColumn) :
    Follows ns (Insert.output d returning) := by
  unfold Insert.output
  split
  · exact .words rfl rfl (.identifier _ .nil)
  · exact .nil

theorem follows_ending (returning : Option TableColumn) :
    Follows (returning.toList.flatMap (·.tableAlias.toList)) (Insert.ending d returning) := by
  unfold Insert.ending
  split
  · next column =>
    have written := Follows.words (w := " RETURNING ") rfl rfl column.laid
    simpa using written
  · exact .words rfl rfl .nil
  · exact .nil

theorem Insert.laid (i : Insert) : Laid (Statement.insert i).unquoted (i.fragments d) := by
  obtain ⟨table, assignments, returning⟩ := i
  have opened : Laid table.aliasName.toList (.words "INSERT INTO " :: table.fragments) :=
    .words rfl table.laid
  have output {ns : List String} : Follows ns (Insert.output d returning) :=
    follows_output d returning
  have ending := follows_ending d returning
  have columnEach (a : Assignment) : Laid a.unquoted a.column.fragments :=
    a.column.laid.mono (List.subset_append_left ..)
  have valueEach (a : Assignment) : Laid a.unquoted (a.value.fragments d) :=
    (a.value.laid d).mono (List.subset_append_right ..)
  have columns : Follows (assignments.flatMap Assignment.unquoted)
      (.words " " :: bracketed (separated ", " (assignments.map (·.column.fragments)))) :=
    .spaced (.bracketed (.separated rfl rfl (.map columnEach _)))
  have values : Follows (assignments.flatMap Assignment.unquoted)
      (.words " VALUES " :: bracketed (separated ", " (assignments.map (·.value.fragments d)))) :=
    .words rfl rfl (.bracketed (.separated rfl rfl (.map valueEach _)))
  cases assignments with
  | nil =>
    cases d with
    | mySql => exact (opened.append_names (.words rfl rfl .nil)).append_names ending
    | postgreSql | sqlServer =>
      exact (opened.append_names (output.append (.words rfl rfl .nil))).append_names ending
  | cons a assignments =>
    exact (opened.append_names ((columns.append output).append values)).append_names ending

theorem Update.laid (u : Update) : Laid (Statement.update u).unquoted (u.fragments d) := by
  have opened : Laid u.table.aliasName.toList (.words "UPDATE " :: u.table.fragments) :=
    .words rfl u.table.laid
  have assigned : Follows (u.assignments.flatMap Assignment.unquoted)
      (.words " SET " :: separated ", " (u.assignments.map (·.fragments d))) :=
    .words rfl rfl (.separated rfl rfl (.map (Assignment.laid d) _))
  exact (opened.append_names assigned).append_names (follows_filter d (some u.filter))

theorem Delete.laid (x : Delete) : Laid (Statement.delete x).unquoted (x.fragments d) := by
  have opened : Laid x.table.aliasName.toList (.words "DELETE FROM " :: x.table.fragments) :=
    .words rfl x.table.laid
  exact opened.append_names (follows_filter d (some x.filter))

theorem Statement.laid (s : Statement) : Laid s.unquoted (s.fragments d) := by
  cases s with
  | select s => exact s.laid d
  | insert i => exact i.laid d
  | update u => exact u.laid d
  | delete x => exact x.laid d

end

/-! ## The text behind a name -/

/-- What stands behind a name does not go on with it. -/
theorem Follows.parting {ns : List String} {fs : List Fragment} (h : Follows ns fs) (d : Dialect) :
    ∀ c ∈ (textOf d fs).head?, parting c = true := by
  cases fs with
  | nil => simp
  | cons f fs =>
    have parts := h.parts f rfl
    cases f with
    | words w =>
      rw [Fragment.parts, Option.any_eq_true] at parts
      obtain ⟨c, first, parting⟩ := parts
      intro other begins
      rw [textOf_words, List.head?_append, first] at begins
      obtain rfl := Option.some.inj begins
      exact parting
    | identifier | parameter => cases parts

theorem head_ne_of_parting {text : List Char} {mark : Char}
    (follows : ∀ c ∈ text.head?, parting c = true) (other : parting mark = false) :
    text.head? ≠ some mark := by
  intro same
  rw [follows mark same] at other
  cases other

theorem parting_closingMark (d : Dialect) : parting d.closingMark = false := by
  cases d <;> rfl

theorem Laid.tail {ns : List String} {f : Fragment} {fs : List Fragment} (h : Laid ns (f :: fs)) :
    Laid ns fs := ⟨h.parted.tail, fun regular => (List.forall_mem_cons.1 (h.plain regular)).2⟩

theorem Laid.behind {ns : List String} {before after : List Fragment} (h : Laid ns (before ++ after)) :
    Laid ns after := by
  induction before with
  | nil => exact h
  | cons f before ih => exact ih h.tail

theorem Laid.behind_identifier {ns : List String} {name : String} {fs : List Fragment}
    (h : Laid ns (.identifier name :: fs)) : Follows ns fs := ⟨h.tail, h.parted.rel_head?⟩

theorem Laid.behind_parameter {ns : List String} {p : Parameter} {fs : List Fragment}
    (h : Laid ns (.parameter p :: fs)) : Follows ns fs := ⟨h.tail, h.parted.rel_head?⟩

/-- A reader of quoted identifiers takes exactly the identifier away from before any text that does
not begin with the closing mark; different names are quoted differently; and wherever a statement is
written with an identifier, the text behind it does not begin with the closing mark. The last holds
whatever the aliases and the parameters of the statement are called. -/
theorem identifiers_closed (d : Dialect) :
    (∀ (name : String) (rest : List Char), rest.head? ≠ some d.closingMark →
      Reads (Scanner.quoted d) (d.quote name).toList name rest) ∧
    Function.Injective d.quote ∧
    ∀ (s : Statement) (before after : List Fragment) (name : String),
      s.fragments d = before ++ .identifier name :: after →
      (s.command d).statement.toList =
        textOf d before ++ (d.quote name).toList ++ textOf d after ∧
      (textOf d after).head? ≠ some d.closingMark := by
  refine ⟨fun name rest stops => ?_, d.quote_injective, fun s before after name written => ?_⟩
  · rw [Dialect.quote, String.toList_ofList]
    exact .quoted_of_head d name stops
  · have follows : Follows s.unquoted after := (written ▸ s.laid d).behind.behind_identifier
    have text : (s.command d).statement.toList = textOf d (s.fragments d) := String.toList_ofList ..
    refine ⟨?_, head_ne_of_parting (follows.parting d) (parting_closingMark d)⟩
    rw [text, written, textOf_append, textOf_identifier, Dialect.quote, String.toList_ofList,
      List.append_assoc]

/-- Names with closing marks in them. -/
theorem identifiers_closed_marks :
    Reads (Scanner.quoted .sqlServer) (Dialect.sqlServer.quote "]a]]").toList "]a]]" [' '] ∧
    Dialect.postgreSql.quote "\"" ≠ Dialect.postgreSql.quote "\"\"" ∧
    (textOf .mySql [.words " AS ", .words "t1"]).head? ≠ some '\x60' :=
  ⟨(identifiers_closed .sqlServer).1 "]a]]" [' '] (by decide),
    fun same => absurd ((identifiers_closed .postgreSql).2.1 same) (by decide),
    ((identifiers_closed .mySql).2.2
      (.select (.simple (.table ⟨none, "\x60a\x60", some "t1"⟩) .one))
      [.words "SELECT ", .words "1", .words " ", .words "FROM "] [.words " AS ", .words "t1"]
      "\x60a\x60" rfl).2⟩

/-! ## Names in a text -/

/-- A name that can be told apart in a text: of an identifier between its quotes, or of a
placeholder. -/
inductive Mark where
  | identifier (name : String)
  | placeholder (name : String)
  deriving DecidableEq

def Mark.placeholder? : Mark → Option String
  | identifier _ => none
  | placeholder name => some name

/-- The characters that the name of a placeholder goes on with. -/
def isNameChar (c : Char) : Bool := c.isAlphanum || c = '_'

/-- The identifiers and the placeholders of a text from left to right, as long as each of them is;
what stands between them is passed over. -/
def marksIn (d : Dialect) : List Char → Option (List Mark)
  | [] => some []
  | c :: text =>
    if c = d.openingMark then
      match _ : unquote d.closingMark text with
      | none => none
      | some (name, rest) => (marksIn d rest).map (.identifier (String.ofList name) :: ·)
    else if c = '@' then
      (marksIn d (text.dropWhile isNameChar)).map
        (.placeholder (String.ofList ('@' :: text.takeWhile isNameChar)) :: ·)
    else marksIn d text
termination_by text => text.length
decreasing_by
  · exact Nat.lt_succ_of_lt (length_lt_of_unquote ‹_›)
  · exact Nat.lt_succ_of_le ((List.dropWhile_sublist _).length_le)
  · exact Nat.lt_succ_self _

/-- The placeholders of a text from left to right. -/
def placeholdersIn (d : Dialect) (text : List Char) : Option (List String) :=
  (marksIn d text).map (·.filterMap Mark.placeholder?)

theorem marksIn_append {d : Dialect} {text : List Char}
    (plain : ∀ c ∈ text, c ≠ d.openingMark ∧ c ≠ '@') (rest : List Char) :
    marksIn d (text ++ rest) = marksIn d rest := by
  induction text with
  | nil => rfl
  | cons c text ih =>
    obtain ⟨opens, marks⟩ := plain c (List.mem_cons_self ..)
    rw [List.cons_append, marksIn, if_neg opens, if_neg marks]
    exact ih fun c member => plain c (.tail _ member)

theorem marksIn_quoteChars (d : Dialect) (name : String) {rest : List Char}
    (stops : rest.head? ≠ some d.closingMark) :
    marksIn d (d.quoteChars name.toList ++ rest) =
      (marksIn d rest).map (.identifier name :: ·) := by
  have body := unquote_double d.closingMark name.toList stops
  rw [Dialect.quoteChars, List.cons_append, List.append_assoc, List.singleton_append, marksIn,
    if_pos rfl]
  -- what was unquoted is part of the branches, so they are split before it is put in
  split
  · next none =>
    rw [body] at none
    cases none
  · next found =>
    rw [body] at found
    cases found
    rw [String.ofList_toList]

theorem not_isNameChar_of_parting {c : Char} (parts : parting c = true) : isNameChar c = false := by
  rw [parting, decide_eq_true_iff] at parts
  simp only [List.mem_cons, List.not_mem_nil, or_false] at parts
  rcases parts with rfl | rfl | rfl | rfl | rfl <;> decide

theorem marksIn_placeholder (d : Dialect) {p : Parameter} (regular : p.isRegular = true)
    {rest : List Char} (follows : ∀ c ∈ rest.head?, parting c = true) :
    marksIn d (p.name.toList ++ rest) = (marksIn d rest).map (.placeholder p.name :: ·) := by
  obtain ⟨ds, shape, -, each⟩ := toList_of_isNumbered regular
  have goesOn : ∀ c ∈ 'p' :: ds, isNameChar c = true := by
    refine List.forall_mem_cons.2 ⟨rfl, fun c member => ?_⟩
    rw [isNameChar, Char.isAlphanum, each c member, Bool.or_true, Bool.true_or]
  have stops : rest.takeWhile isNameChar = [] ∧ rest.dropWhile isNameChar = rest := by
    cases rest with
    | nil => exact ⟨rfl, rfl⟩
    | cons c rest =>
      have other := not_isNameChar_of_parting (follows c rfl)
      rw [List.takeWhile_cons, List.dropWhile_cons, other]
      exact ⟨rfl, rfl⟩
  have whole : p.name = String.ofList ('@' :: 'p' :: ds) := by
    rw [← String.ofList_toList (s := p.name), shape]
    rfl
  have opens : '@' ≠ d.openingMark := by cases d <;> decide
  have text : p.name.toList ++ rest = '@' :: ('p' :: ds ++ rest) := by
    rw [shape]
    rfl
  rw [text, marksIn, if_neg opens, if_pos rfl, List.takeWhile_append_of_pos goesOn,
    List.dropWhile_append_of_pos goesOn, stops.1, stops.2, List.append_nil, whole]

/-- The identifiers and the placeholders among fragments, in their order. -/
def marksOf (fs : List Fragment) : List Mark :=
  fs.filterMap fun
    | .words _ => none
    | .identifier name => some (.identifier name)
    | .parameter p => some (.placeholder p.name)

theorem placeholders_marksOf (fs : List Fragment) :
    (marksOf fs).filterMap Mark.placeholder? = (parametersOf fs).map (·.name) := by
  induction fs with
  | nil => rfl
  | cons f fs ih =>
    cases f with
    | words | identifier => exact ih
    | parameter p => exact congrArg (p.name :: ·) ih

theorem ne_mark {w : String} (plain : isPlain w = true) (d : Dialect) :
    ∀ c ∈ w.toList, c ≠ d.openingMark ∧ c ≠ '@' := by
  intro c member
  have other := List.all_eq_true.1 plain c member
  constructor
  · rintro rfl
    cases d <;> exact absurd other (by decide)
  · rintro rfl
    exact absurd other (by decide)

theorem marksIn_textOf (d : Dialect) {ns : List String} {fs : List Fragment} (h : Laid ns fs)
    (aliases : ∀ a ∈ ns, isAlias a = true)
    (parameters : ∀ p ∈ parametersOf fs, p.isRegular = true) :
    marksIn d (textOf d fs) = some (marksOf fs) := by
  induction fs with
  | nil =>
    rw [textOf_nil, marksIn]
    rfl
  | cons f fs ih =>
    have own := h.plain aliases f (List.mem_cons_self ..)
    cases f with
    | words w =>
      rw [textOf_words, marksIn_append (ne_mark own d), ih h.tail parameters]
      rfl
    | parameter p =>
      obtain ⟨regular, others⟩ := List.forall_mem_cons.1 parameters
      rw [textOf_parameter, marksIn_placeholder d regular (h.behind_parameter.parting d),
        ih h.tail others]
      rfl
    | identifier name =>
      have stops := head_ne_of_parting (h.behind_identifier.parting d) (parting_closingMark d)
      rw [textOf_identifier, marksIn_quoteChars d name stops, ih h.tail parameters]
      rfl

/-- The text of a statement whose aliases and placeholders are regular has exactly the identifiers
and the placeholders of the statement, whatever its tables and columns are called. -/
theorem Statement.marksIn_text (d : Dialect) {s : Statement}
    (aliases : ∀ a ∈ s.unquoted, isAlias a = true)
    (parameters : ∀ p ∈ parametersOf (s.fragments d), p.isRegular = true) :
    marksIn d (s.command d).statement.toList = some (marksOf (s.fragments d)) := by
  rw [Statement.command, Command.ofFragments, String.toList_ofList]
  exact marksIn_textOf d (s.laid d) aliases parameters

theorem Statement.placeholdersIn_text (d : Dialect) {s : Statement}
    (aliases : ∀ a ∈ s.unquoted, isAlias a = true)
    (parameters : ∀ p ∈ parametersOf (s.fragments d), p.isRegular = true) :
    placeholdersIn d (s.command d).statement.toList =
      some ((parametersOf (s.fragments d)).map (·.name)) := by
  rw [placeholdersIn, s.marksIn_text d aliases parameters, Option.map_some, placeholders_marksOf]

end Sql

end ResourceSql
