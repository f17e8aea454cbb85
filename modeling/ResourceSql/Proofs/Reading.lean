/-
Conditions and selects are read back. What the grammar makes of the text of a
regular condition is the condition, as far as its text carries it, whatever
follows that the grammar lets follow.

The proof goes through the grammar once, from the leaves upwards. What is nested
is left to the readers for the depth before (`Readers.Good`), and the induction
over the depth stands at the end (`readers_good`).
-/
import ResourceSql.Proofs.Clauses

namespace ResourceSql.Sql

/-! ## What texts begin with -/

def projectionHeads : List String := "1" :: "COUNT(*)" :: " FROM " :: columnHeads

def selectHeads : List String := projectionHeads.map ("SELECT " ++ ·)

/-- A bracket with a select behind it. -/
def countHeads : List String := selectHeads.map ("(" ++ ·)

def operandHeads : List String := "@" :: "NULL" :: (columnHeads ++ countHeads)

def conditionHeads : List String := "NOT " :: "EXISTS " :: "(" :: operandHeads

theorem begins_projection (d : Dialect) {p : Projection} (regular : p.isRegular = true)
    (rest : List Char) :
    Begins projectionHeads (textOf d p.fragments ++ (" FROM ".toList ++ rest)) := by
  cases p with
  | one => exact .intro (w := "1") (by decide) _
  | count => exact .intro (w := "COUNT(*)") (by decide) _
  | columns cs =>
    cases cs with
    | nil => exact .intro (by decide) rest
    | cons c cs =>
      have first : c.isRegular = true := by
        rw [Projection.isRegular, List.all_cons, Bool.and_eq_true] at regular
        exact regular.1
      rw [Projection.fragments, textOf_separated, List.map_cons, List.map_cons, joined,
        List.append_assoc]
      exact (begins_column d first _).mono (by decide)

theorem textOf_select (d : Dialect) (s : Select) :
    textOf d (s.fragments d) = "SELECT ".toList ++ (textOf d s.projection.fragments ++
      (textOf d (spaced (s.source.clause d)) ++
        (textOf d (s.joins.flatMap fun j => spaced j.fragments) ++
          (textOf d (filterFragments d s.filter) ++ (textOf d (orderFragments d s.order) ++
            textOf d (windowFragments d s.order.isSome s.window)))))) := by
  obtain ⟨projection, source, joins, filter, order, window, aliasName⟩ := s
  rw [Select.fragments]
  simp only [textOf_append, textOf_words, List.append_assoc, List.cons_append]

/-- What stands behind the word `FROM`. -/
def sourceText (d : Dialect) : Source → List Char
  | .table t => textOf d t.fragments
  | .select s => textOf d (bracketed (s.fragments d)) ++ textOf d (aliasFragments s.aliasName)

theorem textOf_clause (d : Dialect) (s : Source) :
    textOf d (spaced (s.clause d)) = " FROM ".toList ++ sourceText d s := by
  cases s with
  | table t =>
    rw [Source.clause, textOf_spaced]
    rfl
  | select s =>
    rw [Source.clause, List.cons_append, textOf_spaced, textOf_append]
    rfl

theorem begins_select (d : Dialect) {s : Select} (regular : s.isRegular = true)
    (rest : List Char) : Begins selectHeads (textOf d (s.fragments d) ++ rest) := by
  obtain ⟨projection, source, joins, filter, order, window, aliasName⟩ := s
  have first : projection.isRegular = true := by
    simp only [Select.isRegular, Bool.and_eq_true] at regular
    exact regular.1.1.1.1.1
  rw [textOf_select, textOf_clause, List.append_assoc, List.append_assoc, List.append_assoc]
  exact (begins_projection d first _).behind "SELECT "

theorem begins_count (d : Dialect) {s : Select} (regular : s.isRegular = true)
    (rest : List Char) : Begins countHeads (textOf d (bracketed (s.fragments d)) ++ rest) := by
  rw [textOf_bracketed, List.append_assoc, List.append_assoc]
  exact (begins_select d regular _).behind "("

theorem begins_operand (d : Dialect) {o : Operand} (regular : o.isRegular = true)
    (rest : List Char) : Begins operandHeads (textOf d (o.fragments d) ++ rest) := by
  cases o with
  | column c => exact (begins_column d regular rest).mono (by decide)
  | parameter p =>
    obtain ⟨ds, shape, -⟩ := toList_of_isNumbered (show isNumbered "@p" p.name = true from regular)
    rw [Operand.fragments, textOf_parameter, shape, List.append_assoc, List.append_assoc]
    exact .intro (w := "@") (by decide) _
  | null => exact .intro (w := "NULL") (by decide) _
  | count s => exact (begins_count d regular rest).mono (by decide)

/-- A comparison is written with its sign, or as a test for null. -/
theorem comparison_forms (d : Dialect) (operator : Comparison) (left right : Operand) :
    (∃ o, (o = left ∨ o = right) ∧
      (Condition.comparison operator left right).fragments d =
        o.fragments d ++ [.words " IS NULL"] ∧
      (Condition.comparison operator left right).visible d =
        .comparison .equals (o.visible d) .null) ∨
    ((Condition.comparison operator left right).fragments d =
      left.fragments d ++ .words (" " ++ operator.sign ++ " ") :: right.fragments d ∧
    (Condition.comparison operator left right).visible d =
      .comparison operator (left.visible d) (right.visible d)) := by
  cases operator with
  | equals =>
    cases right with
    | null => exact .inl ⟨left, .inl rfl, by cases left <;> rfl, by cases left <;> rfl⟩
    | column _ | parameter _ | count _ =>
      cases left with
      | null => exact .inl ⟨_, .inr rfl, rfl, rfl⟩
      | column _ | parameter _ | count _ => exact .inr ⟨rfl, rfl⟩
  | lessThan | lessOrEqual | greaterThan | greaterOrEqual => exact .inr ⟨rfl, rfl⟩

theorem begins_orderTerm (d : Dialect) {t : OrderTerm} (regular : t.isRegular = true)
    (rest : List Char) : Begins (columnHeads ++ countHeads) (textOf d (t.fragments d) ++ rest) := by
  cases t with
  | column c ascending =>
    rw [OrderTerm.fragments, textOf_append, List.append_assoc]
    exact (begins_column d regular _).mono (by decide)
  | count s ascending =>
    rw [OrderTerm.fragments, textOf_append, List.append_assoc]
    exact (begins_count d regular _).mono (by decide)

/-- Where an order by nothing ends, a window or the end of the select follows. -/
theorem ends_terms (d : Dialect) {terms : List OrderTerm} (regular : regularTerms terms = true)
    {rest : List Char} (follows : Ends afterOrder rest) :
    Ends (columnHeads ++ countHeads ++ afterOrder)
      (joined ", " (terms.map fun t => textOf d (t.fragments d)) ++ rest) := by
  cases terms with
  | nil => exact follows.mono (by decide)
  | cons t terms =>
    rw [regularTerms, Bool.and_eq_true] at regular
    rw [List.map_cons, joined, List.append_assoc (textOf d (t.fragments d))]
    exact .inr ((begins_orderTerm d regular.1 _).mono fun w member => List.mem_append_left _ member)

theorem begins_comparison (d : Dialect) (operator : Comparison) {left right : Operand}
    (regularLeft : left.isRegular = true) (regularRight : right.isRegular = true)
    (rest : List Char) :
    Begins operandHeads (textOf d ((Condition.comparison operator left right).fragments d) ++ rest) := by
  rcases comparison_forms d operator left right with ⟨o, which, text, -⟩ | ⟨text, -⟩
  · have regular : o.isRegular = true := by
      rcases which with rfl | rfl <;> assumption
    rw [text, textOf_append, List.append_assoc]
    exact begins_operand d regular _
  · rw [text, textOf_append, List.append_assoc]
    exact begins_operand d regularLeft _

theorem textOf_logical (d : Dialect) (connective : Connective) (first second : Condition)
    (rest : List Condition) :
    textOf d ((Condition.logical connective first second rest).fragments d) =
      textOf d (bracketed (first.fragments d)) ++
        ((" " ++ connective.word ++ " ").toList ++ (textOf d (bracketed (second.fragments d)) ++
          (rest.map fun c => textOf d (bracketed (c.fragments d))).flatMap
            ((" " ++ connective.word ++ " ").toList ++ ·))) := by
  rw [Condition.fragments, bracketedTerms_eq_map, textOf_separated, List.map_cons, List.map_cons,
    List.map_map, joined, List.flatMap_cons, List.append_assoc]
  rfl

theorem begins_condition (d : Dialect) {c : Condition} (regular : c.isRegular = true)
    (rest : List Char) : Begins conditionHeads (textOf d (c.fragments d) ++ rest) := by
  cases c with
  | not child => exact .intro (w := "NOT ") (by decide) _
  | «exists» select => exact .intro (w := "EXISTS ") (by decide) _
  | logical connective first second others =>
    rw [textOf_logical, textOf_bracketed, List.append_assoc, List.append_assoc]
    exact .intro (w := "(") (by decide) _
  | comparison operator left right =>
    rw [Condition.isRegular, Bool.and_eq_true] at regular
    exact (begins_comparison d operator regular.1 regular.2 rest).mono (by decide)
  | like column place pattern =>
    rw [Condition.isRegular, Bool.and_eq_true] at regular
    rw [Condition.fragments, textOf_append, List.append_assoc]
    exact (begins_column d regular.1 _).mono (by decide)
  | isIn column values =>
    rw [Condition.isRegular, Bool.and_eq_true] at regular
    rw [Condition.fragments, textOf_append, List.append_assoc]
    exact (begins_column d regular.1 _).mono (by decide)

theorem begins_logical (d : Dialect) (connective : Connective) {first : Condition}
    (second : Condition) (others : List Condition) (regular : first.isRegular = true)
    (rest : List Char) :
    Begins (conditionHeads.map ("(" ++ ·))
      (textOf d ((Condition.logical connective first second others).fragments d) ++ rest) := by
  rw [textOf_logical, textOf_bracketed, List.append_assoc, List.append_assoc, List.append_assoc]
  exact (begins_condition d regular _).behind "("

/-- The signs of comparisons, as they stand in texts. -/
def signs : List String := Comparison.all.map fun operator => " " ++ operator.sign ++ " "

theorem Reads.sign (operator : Comparison) (rest : List Char) :
    Reads Scanner.sign (" " ++ operator.sign ++ " ").toList operator rest := by
  cases operator <;> rfl

theorem Reads.columnOperand (d : Dialect) (r : Readers) {c : Column} (regular : c.isRegular = true)
    {rest : List Char} (stops : breaks rest = true) :
    Reads (Scanner.operand d r) (textOf d c.fragments) (.column c.visible) rest := by
  have heads := begins_column d regular rest
  refine .unseen (heads.skip (by decide)) (.elsewhere (heads.skip (by decide))
    (.elsewhere (heads.skip (by decide)) ?_))
  exact (Reads.column d regular stops).map Operand.column

/-- A bracket at the start of a comparison is that of a select. -/
theorem Reads.ofComparison {r : Readers} {n : Nat} {t rest : List Char} {c : Condition}
    (heads : Begins operandHeads (t ++ rest)) (h : Reads (Scanner.comparison d r n) t c rest) :
    Reads (Scanner.condition d r n) t c rest := by
  refine .unseen (heads.skip (by decide)) (.unseen (heads.skip (by decide)) ?_)
  rcases Begins.split (f := "@" :: "NULL" :: columnHeads) heads with simple | select
  · exact .elsewhere (simple.skip (by decide)) (.elsewhere (simple.skip (by decide)) h)
  · exact .ahead (select.shorten (by decide)) h

/-- A column comes first, and behind it the word for what is said of it. -/
theorem Reads.ofColumn {r : Readers} {n : Nat} {column : Column} {w : String} {t rest : List Char}
    {c : Condition} (regular : column.isRegular = true)
    (stops : w.toList ≠ [] ∧ breaks w.toList = true)
    (h : Reads (Scanner.relation d r n (.column column.visible)) (w.toList ++ t) c rest) :
    Reads (Scanner.condition d r n) (textOf d column.fragments ++ (w.toList ++ t)) c rest := by
  refine .ofComparison ?_ (.bind (.columnOperand d r regular ?_) h)
  · rw [List.append_assoc]
    exact (begins_column d regular _).mono (by decide)
  · rw [List.append_assoc]
    exact breaks_append stops _

theorem Reads.like (d : Dialect) (r : Readers) (n : Nat) {column : Column} (place : TextMatch)
    {pattern : Parameter} (regularColumn : column.isRegular = true)
    (regularPattern : pattern.isRegular = true) {rest : List Char} (stops : breaks rest = true) :
    Reads (Scanner.condition d r n) (textOf d ((Condition.like column place pattern).fragments d))
      ((Condition.like column place pattern).visible d) rest := by
  have text : textOf d ((Condition.like column place pattern).fragments d) =
      textOf d column.fragments ++ (" LIKE ".toList ++ pattern.name.toList) := by
    simp [Condition.fragments]
  rw [text]
  refine .ofColumn regularColumn (by decide) ?_
  refine .unseen ?_ (.seen (.last (f := fun p => Condition.like column.visible .contains p)
    (.parameter regularPattern stops)))
  rw [List.append_assoc]
  exact skip_of_clash (by decide) _

theorem Reads.direction (d : Dialect) (ascending : Bool) {rest : List Char}
    (absent : skip " DESC".toList rest = none) :
    Reads Scanner.direction (textOf d (direction ascending)) ascending rest := by
  cases ascending with
  | true => exact .unseen absent (.pure true rest)
  | false => exact .seen (w := " DESC") (.pure false rest)

theorem ends_direction (d : Dialect) (ascending : Bool) {words : List String} {rest : List Char}
    (follows : Ends words rest) :
    Ends (" DESC" :: words) (textOf d (direction ascending) ++ rest) := by
  cases ascending with
  | true => exact follows.mono fun w member => List.mem_cons_of_mem _ member
  | false => exact .intro (w := " DESC") (List.mem_cons_self ..) _

theorem ends_order (d : Dialect) (order : Option (List OrderTerm)) (w : Window) {rest : List Char}
    (follows : Ends afterOrder rest) :
    Ends afterCondition
      (textOf d (orderFragments d order) ++ textOf d (impliedOrder d order.isSome w) ++ rest) := by
  cases order with
  | some terms =>
    rw [orderFragments, textOf_spaced, List.append_assoc, List.append_assoc]
    exact .intro (List.mem_cons_self ..) _
  | none =>
    rw [orderFragments, textOf_nil, List.nil_append]
    cases d with
    | postgreSql | mySql => exact follows.mono (by decide)
    | sqlServer =>
      rw [impliedOrder]
      split
      · exact follows.mono (by decide)
      · exact .intro (w := " ORDER BY ") (List.mem_cons_self ..) ("(SELECT NULL)".toList ++ rest)

theorem ends_filter (d : Dialect) (filter : Option Condition) {rest : List Char}
    (follows : Ends afterCondition rest) :
    Ends afterJoins (textOf d (filterFragments d filter) ++ rest) := by
  cases filter with
  | none => exact follows.mono (by decide)
  | some c =>
    rw [filterFragments, textOf_spaced, List.append_assoc]
    exact .intro (List.mem_cons_self ..) _

/-! ## Reading by the readers for the depth before -/

/-- Conditions and selects of at most the given size are read back. -/
structure Readers.Good (d : Dialect) (r : Readers) (n : Nat) : Prop where
  condition : ∀ c : Condition, sizeOf c ≤ n → c.isRegular = true → ∀ rest, Ends afterCondition rest →
    Reads r.condition (textOf d (c.fragments d)) (c.visible d) rest
  select : ∀ s : Select, sizeOf s ≤ n → s.isRegular = true → ∀ rest, Ends afterSelect rest →
    Reads r.select (textOf d (s.fragments d)) (s.visible d) rest

section Layers

variable {r : Readers} {n : Nat} (good : r.Good d n)

include good

theorem Readers.Good.bracketedCondition {c : Condition} (size : sizeOf c ≤ n)
    (regular : c.isRegular = true) (rest : List Char) :
    Reads (Scanner.bracketed r.condition) (textOf d (bracketed (c.fragments d))) (c.visible d)
      rest := by
  rw [textOf_bracketed]
  exact .bracketed (good.condition c size regular _ (.intro (by decide) rest))

theorem Readers.Good.bracketedSelect {s : Select} (size : sizeOf s ≤ n)
    (regular : s.isRegular = true) (rest : List Char) :
    Reads (Scanner.bracketed r.select) (textOf d (bracketed (s.fragments d))) (s.visible d)
      rest := by
  rw [textOf_bracketed]
  exact .bracketed (good.select s size regular _ (.intro (by decide) rest))

theorem Readers.Good.operand {o : Operand} (size : sizeOf o ≤ n) (regular : o.isRegular = true)
    {rest : List Char} (stops : breaks rest = true) :
    Reads (Scanner.operand d r) (textOf d (o.fragments d)) (o.visible d) rest := by
  cases o with
  | null => exact .seen (w := "NULL") (.pure Operand.null rest)
  | parameter p =>
    have text : textOf d ((Operand.parameter p).fragments d) = p.name.toList := by
      simp [Operand.fragments]
    obtain ⟨ds, shape, -⟩ := toList_of_isNumbered (show isNumbered "@p" p.name = true from regular)
    rw [text]
    have heads : Begins ["@p"] (p.name.toList ++ rest) := by
      rw [shape, List.append_assoc]
      exact .intro (List.mem_cons_self ..) _
    exact .unseen (heads.skip (by decide))
      (.ahead (heads.shorten (by decide)) ((Reads.parameter regular stops).map _))
  | column c => exact .columnOperand d r regular stops
  | count s =>
    have heads := begins_count d (s := s) regular rest
    have small : sizeOf s ≤ n := by
      rw [Operand.count.sizeOf_spec] at size
      omega
    refine .unseen (heads.skip (by decide)) (.elsewhere (heads.skip (by decide))
      (.ahead (heads.shorten (by decide)) ?_))
    exact (good.bracketedSelect small regular rest).map Operand.count

theorem Readers.Good.operands {os : List Operand} (size : sizeOf os ≤ n)
    (regular : regularOperands os = true) (rest : List Char) :
    Reads (Scanner.listOf ", " (Scanner.operand d r) n)
      (textOf d (separated ", " (operandTerms d os))) (visibleOperands d os) (")".toList ++ rest) := by
  rw [operandTerms_eq_map, textOf_separated, List.map_map, visibleOperands_eq_map]
  refine .listOf (Ends [", ", ")"]) ?_ ?_ ?_ ?_ ?_ ?_ ?_
  · intro o member rest follows
    have small := List.sizeOf_lt_of_mem member
    exact good.operand (by omega) (regular_of_mem_operands regular member)
      (follows.breaks (by decide))
  · exact fun rest => .intro (by decide) rest
  · exact Nat.le_trans (length_le_sizeOf os) size
  · exact .intro (by decide) rest
  · exact skip_of_clash (by decide) _
  · intro o member rest
    exact (begins_operand d (regular_of_mem_operands regular member) rest).item (by decide)
  · rfl

theorem Readers.Good.comparison (operator : Comparison) {left right : Operand}
    (sizeLeft : sizeOf left ≤ n) (sizeRight : sizeOf right ≤ n)
    (regularLeft : left.isRegular = true) (regularRight : right.isRegular = true)
    {rest : List Char} (follows : Ends afterCondition rest) :
    Reads (Scanner.comparison d r n)
      (textOf d ((Condition.comparison operator left right).fragments d))
      ((Condition.comparison operator left right).visible d) rest := by
  rcases comparison_forms d operator left right with ⟨o, which, text, value⟩ | ⟨text, value⟩
  · have size : sizeOf o ≤ n := by
      rcases which with rfl | rfl <;> assumption
    have regular : o.isRegular = true := by
      rcases which with rfl | rfl <;> assumption
    have reads : Reads (Scanner.relation d r n (o.visible d)) " IS NULL".toList
        (.comparison .equals (o.visible d) .null) rest :=
      .seen (t := []) (.pure _ rest)
    have stops : breaks (" IS NULL".toList ++ rest) = true := breaks_append (by decide) rest
    rw [text, value, textOf_append]
    exact .bind (good.operand size regular stops) reads
  · have reads : Reads (Scanner.relation d r n (left.visible d))
        ((" " ++ operator.sign ++ " ").toList ++ textOf d (right.fragments d))
        (.comparison operator (left.visible d) (right.visible d)) rest := by
      have other : Begins signs ((" " ++ operator.sign ++ " ").toList ++
          textOf d (right.fragments d) ++ rest) := by
        rw [List.append_assoc]
        exact .intro (by cases operator <;> decide) _
      refine .unseen (other.skip (by decide)) (.unseen (other.skip (by decide))
        (.unseen (other.skip (by decide)) (.bind (.sign operator _) (.last ?_))))
      exact good.operand sizeRight regularRight (follows.breaks (by decide))
    rw [text, value, textOf_append, textOf_words]
    refine .bind (good.operand sizeLeft regularLeft ?_) reads
    rw [List.append_assoc]
    exact breaks_append (by cases operator <;> decide) _

theorem Readers.Good.terms (connective : Connective) (first : Condition) {second : Condition}
    {others : List Condition} (sizeSecond : sizeOf second ≤ n) (sizeOthers : sizeOf others ≤ n)
    (regularSecond : second.isRegular = true) (regularOthers : regularConditions others = true)
    {rest : List Char} (follows : Ends afterCondition rest) :
    Reads (Scanner.terms r n connective first)
      (textOf d (bracketed (second.fragments d)) ++
        (others.map fun c => textOf d (bracketed (c.fragments d))).flatMap
          ((" " ++ connective.word ++ " ").toList ++ ·))
      (.logical connective first (second.visible d) (visibleConditions d others)) rest := by
  rw [visibleConditions_eq_map]
  refine .bind (good.bracketedCondition sizeSecond regularSecond _) (.last
    (.more (fun _ => True) ?_ ?_ ?_ ?_ ?_))
  · intro c member rest _
    have small := List.sizeOf_lt_of_mem member
    exact good.bracketedCondition (by omega) (regular_of_mem_conditions regularOthers member) rest
  · exact fun _ => trivial
  · exact Nat.le_trans (length_le_sizeOf others) sizeOthers
  · trivial
  · cases connective <;> exact follows.skip (by decide) (by decide)

theorem Readers.Good.logical (connective : Connective) {first second : Condition}
    {others : List Condition} (sizeFirst : sizeOf first ≤ n) (sizeSecond : sizeOf second ≤ n)
    (sizeOthers : sizeOf others ≤ n) (regularFirst : first.isRegular = true)
    (regularSecond : second.isRegular = true) (regularOthers : regularConditions others = true)
    {rest : List Char} (follows : Ends afterCondition rest) :
    Reads (Scanner.logical r n)
      (textOf d ((Condition.logical connective first second others).fragments d))
      ((Condition.logical connective first second others).visible d) rest := by
  have terms := good.terms connective (first.visible d) sizeSecond sizeOthers regularSecond
    regularOthers follows
  rw [textOf_logical]
  refine .bind (good.bracketedCondition sizeFirst regularFirst _) ?_
  cases connective with
  | and => exact .seen terms
  | or =>
    refine .unseen ?_ (.bind (.word " OR " _) terms)
    rw [List.append_assoc]
    exact skip_of_clash (a := " OR ".toList) (by decide) _

theorem Readers.Good.isIn {column : Column} {values : List Operand}
    (regularColumn : column.isRegular = true) (size : sizeOf values ≤ n)
    (regularValues : regularOperands values = true) (rest : List Char) :
    Reads (Scanner.condition d r n) (textOf d ((Condition.isIn column values).fragments d))
      ((Condition.isIn column values).visible d) rest := by
  have text : textOf d ((Condition.isIn column values).fragments d) =
      textOf d column.fragments ++
        (" IN ".toList ++ textOf d (bracketed (separated ", " (operandTerms d values)))) := by
    simp [Condition.fragments]
  have bracket := Reads.bracketed (good.operands size regularValues rest)
  rw [text, textOf_bracketed]
  refine .ofColumn regularColumn (by decide) ?_
  refine .unseen ?_ (.unseen ?_ (.seen (.last
    (f := fun values => Condition.isIn column.visible values) bracket)))
  · rw [List.append_assoc]
    exact skip_of_clash (by decide) _
  · rw [List.append_assoc]
    exact skip_of_clash (by decide) _

theorem Readers.Good.conditionStep {c : Condition} (size : sizeOf c ≤ n + 1)
    (regular : c.isRegular = true) {rest : List Char} (follows : Ends afterCondition rest) :
    Reads (Scanner.condition d r n) (textOf d (c.fragments d)) (c.visible d) rest := by
  cases c with
  | not child =>
    rw [Condition.not.sizeOf_spec] at size
    exact .seen (w := "NOT ")
      ((good.bracketedCondition (c := child) (by omega) regular rest).map Condition.not)
  | «exists» select =>
    rw [Condition.exists.sizeOf_spec] at size
    exact .unseen (skip_of_clash (a := "EXISTS ".toList) (by decide) _) (.seen (w := "EXISTS ")
      ((good.bracketedSelect (s := select) (by omega) regular rest).map Condition.exists))
  | logical connective first second others =>
    rw [Condition.logical.sizeOf_spec] at size
    rw [Condition.isRegular, Bool.and_eq_true, Bool.and_eq_true] at regular
    obtain ⟨⟨regularFirst, regularSecond⟩, regularOthers⟩ := regular
    have heads := begins_logical d connective second others regularFirst rest
    refine .unseen (heads.skip (by decide)) (.unseen (heads.skip (by decide))
      (.elsewhere (heads.skip (by decide)) (.ahead (heads.shorten (by decide)) ?_)))
    exact good.logical connective (by omega) (by omega) (by omega) regularFirst regularSecond
      regularOthers follows
  | comparison operator left right =>
    rw [Condition.comparison.sizeOf_spec] at size
    rw [Condition.isRegular, Bool.and_eq_true] at regular
    exact .ofComparison (begins_comparison d operator regular.1 regular.2 rest)
      (good.comparison operator (by omega) (by omega) regular.1 regular.2 follows)
  | like column place pattern =>
    rw [Condition.isRegular, Bool.and_eq_true] at regular
    exact .like d r n place regular.1 regular.2 (follows.breaks (by decide))
  | isIn column values =>
    rw [Condition.isIn.sizeOf_spec] at size
    rw [Condition.isRegular, Bool.and_eq_true] at regular
    exact good.isIn regular.1 (by omega) regular.2 rest

theorem Readers.Good.source {s : Source} (size : sizeOf s ≤ n + 1) (regular : s.isRegular = true)
    {rest : List Char} (follows : Ends afterSource rest) :
    Reads (Scanner.source d r) (sourceText d s) (s.visible d) rest := by
  cases s with
  | table t =>
    refine .elsewhere ((begins_table d t rest).skip (by decide)) ?_
    exact (Reads.table d regular (follows.mono (by decide))).map Source.table
  | select s =>
    rw [Source.select.sizeOf_spec] at size
    rw [Source.isRegular, Bool.and_eq_true] at regular
    refine .ahead ?_ (.bind (good.bracketedSelect (by omega) regular.1 _)
      (.last (f := fun aliasName => Source.select { s.visible d with aliasName }) (.aliasPart regular.2 ?_ ?_)))
    · rw [sourceText, List.append_assoc]
      exact (begins_count d regular.1 _).shorten (by decide)
    · exact follows.breaks (by decide)
    · exact follows.skip (by decide) (by decide)

theorem Readers.Good.orderTerm {t : OrderTerm} (size : sizeOf t ≤ n) (regular : t.isRegular = true)
    {rest : List Char} (follows : Ends (", " :: afterOrder) rest) :
    Reads (Scanner.orderTerm d r) (textOf d (t.fragments d)) (t.visible d) rest := by
  have absent : skip " DESC".toList rest = none := follows.skip (by decide) (by decide)
  have stops (ascending : Bool) : breaks (textOf d (direction ascending) ++ rest) = true :=
    (ends_direction d ascending follows).breaks (by decide)
  cases t with
  | column c ascending =>
    rw [OrderTerm.fragments, textOf_append]
    refine .elsewhere ?_ (.bind (.column d regular (stops ascending)) (.last (.direction d ascending absent)))
    rw [List.append_assoc]
    exact (begins_column d regular _).skip (by decide)
  | count s ascending =>
    rw [OrderTerm.count.sizeOf_spec] at size
    rw [OrderTerm.fragments, textOf_append]
    refine .ahead ?_ (.bind (good.bracketedSelect (by omega) regular _) (.last (.direction d ascending absent)))
    rw [List.append_assoc]
    exact (begins_count d regular _).shorten (by decide)

theorem Readers.Good.order {order : Option (List OrderTerm)} (size : sizeOf order ≤ n + 1)
    (regular : regularOrder order = true) (w : Window) {rest : List Char}
    (follows : Ends afterOrder rest) :
    Reads (Scanner.order d r n)
      (textOf d (orderFragments d order) ++ textOf d (impliedOrder d order.isSome w))
      (visibleOrder d order) rest := by
  cases order with
  | none =>
    have absent : Reads (Scanner.order d r n) [] none rest :=
      .unseen (follows.skip (by decide) (by decide)) (.unseen (follows.skip (by decide) (by decide))
        (.pure none rest))
    have present : Reads (Scanner.order d r n) " ORDER BY (SELECT NULL)".toList none rest :=
      .seen (t := []) (.pure none rest)
    cases d with
    | postgreSql | mySql => exact absent
    | sqlServer =>
      rw [orderFragments, textOf_nil, List.nil_append, impliedOrder]
      split
      · exact absent
      · exact present
  | some terms =>
    rw [Option.some.sizeOf_spec] at size
    have implied : impliedOrder d (some terms).isSome w = [] := by
      cases d <;> simp [impliedOrder]
    have text : textOf d (orderFragments d (some terms)) = " ORDER BY ".toList ++
        joined ", " (terms.map fun t => textOf d (t.fragments d)) := by
      rw [orderFragments, textOf_spaced, orderTerms_eq_map, textOf_separated, List.map_map]
      rfl
    rw [implied, textOf_nil, List.append_nil, text]
    refine .unseen ?_ (.seen (.map some ?_))
    · rw [List.append_assoc]
      exact (skip_append_append " ORDER BY ".toList "(SELECT NULL)".toList _).trans
        ((ends_terms d regular follows).skip (by decide) (by decide))
    · rw [visibleTerms_eq_map]
      refine .listOf (Ends (", " :: afterOrder)) ?_ ?_ ?_ ?_ ?_ ?_ ?_
      · intro t member rest follows
        have small := List.sizeOf_lt_of_mem member
        exact good.orderTerm (by omega) (regular_of_mem_terms regular member) follows
      · exact fun rest => .intro (List.mem_cons_self ..) rest
      · exact Nat.le_trans (length_le_sizeOf terms) (by omega)
      · exact follows.mono (by decide)
      · exact follows.skip (by decide) (by decide)
      · intro t member rest
        exact (begins_orderTerm d (regular_of_mem_terms regular member) rest).item (by decide)
      · exact follows.noItem (by decide)

theorem Readers.Good.filter {filter : Option Condition} (size : sizeOf filter ≤ n + 1)
    (regular : regularFilter filter = true) {rest : List Char} (follows : Ends afterCondition rest) :
    Reads (Scanner.ifSees " WHERE " (some <$> r.condition) (pure none))
      (textOf d (filterFragments d filter)) (visibleFilter d filter) rest := by
  cases filter with
  | none => exact .unseen (follows.skip (by decide) (by decide)) (.pure none rest)
  | some c =>
    rw [Option.some.sizeOf_spec] at size
    rw [filterFragments, textOf_spaced]
    exact .seen ((good.condition c (by omega) regular rest follows).map some)

theorem Readers.Good.selectStep {s : Select} (size : sizeOf s ≤ n + 1)
    (regular : s.isRegular = true) {rest : List Char} (follows : Ends afterSelect rest) :
    Reads (Scanner.select d r n) (textOf d (s.fragments d)) (s.visible d) rest := by
  obtain ⟨projection, source, joins, filter, order, window, aliasName⟩ := s
  rw [Select.mk.sizeOf_spec] at size
  simp only [Select.isRegular, Bool.and_eq_true] at regular
  obtain ⟨⟨⟨⟨⟨regularProjection, regularSource⟩, regularJoins⟩, regularFilter⟩, regularOrder⟩,
    regularWindow⟩ := regular
  have enough : joins.length ≤ n := Nat.le_trans (length_le_sizeOf joins) (by omega)
  have behindOrder := ends_window d window follows
  have behindFilter := ends_order d order window behindOrder
  have behindJoins := ends_filter d filter behindFilter
  have behindSource := ends_joins d joins behindJoins
  rw [textOf_select, textOf_clause, windowFragments_eq, textOf_append, List.append_assoc,
    ← List.append_assoc (textOf d (orderFragments d order))]
  refine .bind (.word "SELECT " _) (.bind ?_ (.bind (.word " FROM " _) (.bind ?_ (.bind ?_
    (.bind ?_ (.bind ?_ (.last (.window d regularWindow follows))))))))
  · rw [List.append_assoc]
    exact .projection d regularProjection (by omega) _
  · exact good.source (by omega) regularSource (by simpa using behindSource)
  · exact .joins d enough regularJoins (by simpa using behindJoins)
  · exact good.filter (by omega) regularFilter (by simpa using behindFilter)
  · exact good.order (by omega) regularOrder window behindOrder

end Layers

theorem readers_good (d : Dialect) (n : Nat) : (readers d n).Good d n := by
  induction n with
  | zero =>
    constructor
    · intro c size
      cases c <;> simp at size
    · intro s size
      cases s
      simp at size
  | succ n ih =>
    constructor
    · intro c size regular rest follows
      exact ih.conditionStep size regular follows
    · intro s size regular rest follows
      exact ih.selectStep size regular follows

end ResourceSql.Sql
