/-
The clauses of a select that hold no conditions and no selects: columns, tables,
joins, projections and windows. Their texts are read back, whatever follows that
the grammar lets follow.
-/
import ResourceSql.Proofs.Grammar

namespace ResourceSql.Sql

variable {d : Dialect}

/-! ## Texts of fragments -/

@[simp] theorem textOf_nil (d : Dialect) : textOf d [] = [] := rfl

@[simp] theorem textOf_words (d : Dialect) (w : String) (fs : List Fragment) :
    textOf d (.words w :: fs) = w.toList ++ textOf d fs := rfl

@[simp] theorem textOf_identifier (d : Dialect) (name : String) (fs : List Fragment) :
    textOf d (.identifier name :: fs) = d.quoteChars name.toList ++ textOf d fs := rfl

@[simp] theorem textOf_parameter (d : Dialect) (p : Parameter) (fs : List Fragment) :
    textOf d (.parameter p :: fs) = p.name.toList ++ textOf d fs := rfl

@[simp] theorem textOf_append (d : Dialect) (fs gs : List Fragment) :
    textOf d (fs ++ gs) = textOf d fs ++ textOf d gs := List.flatMap_append

@[simp] theorem textOf_bracketed (d : Dialect) (fs : List Fragment) :
    textOf d (bracketed fs) = "(".toList ++ (textOf d fs ++ ")".toList) := by
  simp only [bracketed, textOf_words, textOf_append, textOf_nil, List.append_nil]

@[simp] theorem textOf_spaced (d : Dialect) (w : String) (fs : List Fragment) :
    textOf d (spaced (.words w :: fs)) = (" " ++ w).toList ++ textOf d fs := by
  simp only [spaced, textOf_words, String.toList_append, List.append_assoc]

theorem textOf_separated (d : Dialect) (separator : String) (fss : List (List Fragment)) :
    textOf d (separated separator fss) = joined separator (fss.map (textOf d)) := by
  induction fss with
  | nil => rfl
  | cons fs fss ih =>
    cases fss with
    | nil => simp [separated, joined]
    | cons gs fss =>
      rw [separated, textOf_append, textOf_words, ih]
      · simp [joined]
      · simp

theorem length_le_sizeOf {α : Type} [SizeOf α] (l : List α) : l.length ≤ sizeOf l := by
  induction l with
  | nil => exact Nat.zero_le _
  | cons a l ih =>
    rw [List.length_cons, List.cons.sizeOf_spec]
    omega

/-! ## Lists in trees -/

/-- A function that goes through a list, item by item, maps it. -/
theorem eq_map_of_steps {α β : Type} {f : α → β} {each : List α → List β} (nil : each [] = [])
    (cons : ∀ a as, each (a :: as) = f a :: each as) (as : List α) : each as = as.map f := by
  induction as with
  | nil => exact nil
  | cons a as ih => rw [cons, ih, List.map_cons]

theorem bracketedTerms_eq_map (d : Dialect) (cs : List Condition) :
    bracketedTerms d cs = cs.map fun c => bracketed (c.fragments d) :=
  eq_map_of_steps rfl (fun _ _ => rfl) cs

theorem operandTerms_eq_map (d : Dialect) (os : List Operand) :
    operandTerms d os = os.map (·.fragments d) :=
  eq_map_of_steps rfl (fun _ _ => rfl) os

theorem orderTerms_eq_map (d : Dialect) (terms : List OrderTerm) :
    orderTerms d terms = terms.map (·.fragments d) :=
  eq_map_of_steps rfl (fun _ _ => rfl) terms

theorem visibleConditions_eq_map (d : Dialect) (cs : List Condition) :
    visibleConditions d cs = cs.map (·.visible d) :=
  eq_map_of_steps rfl (fun _ _ => rfl) cs

theorem visibleOperands_eq_map (d : Dialect) (os : List Operand) :
    visibleOperands d os = os.map (·.visible d) :=
  eq_map_of_steps rfl (fun _ _ => rfl) os

theorem visibleTerms_eq_map (d : Dialect) (terms : List OrderTerm) :
    visibleTerms d terms = terms.map (·.visible d) :=
  eq_map_of_steps rfl (fun _ _ => rfl) terms

/-- A test that goes through a list, item by item, tests every item. -/
theorem of_mem_of_steps {α : Type} {f : α → Bool} {each : List α → Bool}
    (cons : ∀ a as, each (a :: as) = (f a && each as)) {as : List α} (h : each as = true) {a : α}
    (member : a ∈ as) : f a = true := by
  induction as with
  | nil => cases member
  | cons first as ih =>
    rw [cons, Bool.and_eq_true] at h
    rcases List.mem_cons.1 member with rfl | member
    · exact h.1
    · exact ih h.2 member

theorem regular_of_mem_conditions {cs : List Condition} (regular : regularConditions cs = true)
    {c : Condition} (member : c ∈ cs) : c.isRegular = true :=
  of_mem_of_steps (fun _ _ => rfl) regular member

theorem regular_of_mem_operands {os : List Operand} (regular : regularOperands os = true)
    {o : Operand} (member : o ∈ os) : o.isRegular = true :=
  of_mem_of_steps (fun _ _ => rfl) regular member

theorem regular_of_mem_terms {terms : List OrderTerm} (regular : regularTerms terms = true)
    {t : OrderTerm} (member : t ∈ terms) : t.isRegular = true :=
  of_mem_of_steps (fun _ _ => rfl) regular member

/-! ## Columns, parameters and tables -/

theorem TableColumn.textOf_plain (d : Dialect) (name : String) (role : ColumnRole) :
    textOf d (TableColumn.fragments ⟨name, role, none⟩) = d.quoteChars name.toList := by
  simp [TableColumn.fragments, qualifier]

theorem TableColumn.textOf_addressed (d : Dialect) (name : String) (role : ColumnRole)
    (aliasName : String) :
    textOf d (TableColumn.fragments ⟨name, role, some aliasName⟩) =
      aliasName.toList ++ (".".toList ++ d.quoteChars name.toList) := by
  simp [TableColumn.fragments, qualifier]

theorem Reads.tableColumn (d : Dialect) {c : TableColumn} (regular : c.isRegular = true)
    {rest : List Char} (stops : breaks rest = true) :
    Reads (Scanner.tableColumn d) (textOf d c.fragments) c.visible rest := by
  obtain ⟨name, role, aliasName⟩ := c
  cases aliasName with
  | none =>
    rw [TableColumn.textOf_plain]
    refine .elsewhere ?_ ((Reads.quoted d name stops).map _)
    exact (begins_quoteChars d _ _).skip (by decide)
  | some a =>
    have numbered : isNumbered "t" a = true := regular
    obtain ⟨ds, shape, -⟩ := toList_of_isNumbered numbered
    rw [TableColumn.textOf_addressed]
    refine .ahead ?_ ?_
    · rw [shape, List.append_assoc, List.append_assoc]
      exact .intro (List.mem_cons_self ..) _
    · refine .bind (.numbered numbered ?_) (.bind (.word "." _) (.last (.quoted d name stops)))
      rw [List.append_assoc]
      exact breaks_append (by decide) _

theorem Reads.column (d : Dialect) {c : Column} (regular : c.isRegular = true) {rest : List Char}
    (stops : breaks rest = true) :
    Reads (Scanner.column d) (textOf d c.fragments) c.visible rest :=
  (Reads.tableColumn d (c := ⟨c.name, .scalar, c.aliasName⟩) regular stops).map Column.ofTable

theorem Reads.parameter {p : Parameter} (regular : p.isRegular = true) {rest : List Char}
    (stops : breaks rest = true) : Reads Scanner.parameter p.name.toList p.visible rest := by
  obtain ⟨ds, shape, -, each⟩ := toList_of_isNumbered regular
  have reads := (Reads.word "@p" _).bind (f := fun _ => Scanner.digits >>= fun behind =>
    Pure.pure (Parameter.mk (String.ofList ('@' :: 'p' :: behind)) .null (by simp [isParameterName])))
    (Reads.digits each stops).last
  have same : p.visible =
      ⟨String.ofList ('@' :: 'p' :: ds), .null, by simp [isParameterName]⟩ := by
    have name : String.ofList ('@' :: 'p' :: ds) = p.name := by
      rw [← String.ofList_toList (s := p.name), shape]
      rfl
    simp only [Parameter.visible, name]
  rw [shape, same]
  exact reads

/-! ## What may follow -/

/-- A select is the whole text, or in brackets. -/
def afterSelect : List String := [")"]

def afterOrder : List String := " LIMIT " :: " OFFSET " :: afterSelect

def afterCondition : List String := " ORDER BY " :: afterOrder

def afterJoins : List String := " WHERE " :: afterCondition

def afterSource : List String := " INNER JOIN " :: " LEFT JOIN " :: afterJoins

def afterTable : List String := " ON " :: afterSource

theorem Reads.aliasPart {aliasName : Option String} (regular : aliasName.all isAlias = true)
    {rest : List Char} (stops : breaks rest = true) (absent : skip " AS ".toList rest = none) :
    Reads Scanner.aliasPart (textOf d (aliasFragments aliasName)) aliasName rest := by
  cases aliasName with
  | none => exact .unseen absent (.pure none rest)
  | some a =>
    have text : textOf d (aliasFragments (some a)) = " AS ".toList ++ a.toList := by
      simp [aliasFragments]
    rw [text]
    exact .seen ((Reads.numbered regular stops).map some)

theorem ends_aliasFragments {aliasName : Option String} {words : List String} {rest : List Char}
    (h : Ends words rest) :
    Ends (" AS " :: words) (textOf d (aliasFragments aliasName) ++ rest) := by
  cases aliasName with
  | none => exact h.mono fun w member => List.mem_cons_of_mem _ member
  | some a =>
    rw [aliasFragments, textOf_words, List.append_assoc]
    exact .intro (List.mem_cons_self ..) _

theorem Table.textOf_plain (d : Dialect) (name : String) (aliasName : Option String) :
    textOf d (Table.fragments ⟨none, name, aliasName⟩) =
      d.quoteChars name.toList ++ textOf d (aliasFragments aliasName) := by
  simp [Table.fragments]

theorem Table.textOf_schema (d : Dialect) (schema name : String) (aliasName : Option String) :
    textOf d (Table.fragments ⟨some schema, name, aliasName⟩) =
      d.quoteChars schema.toList ++ ((".".toList ++ d.quoteChars name.toList) ++
        textOf d (aliasFragments aliasName)) := by
  simp [Table.fragments]

theorem Reads.table (d : Dialect) {t : Table} (regular : t.isRegular = true) {rest : List Char}
    (follows : Ends afterTable rest) : Reads (Scanner.table d) (textOf d t.fragments) t rest := by
  obtain ⟨schema, name, aliasName⟩ := t
  have behind : Ends (" AS " :: afterTable) (textOf d (aliasFragments aliasName) ++ rest) :=
    ends_aliasFragments follows
  have aliasRead : Reads Scanner.aliasPart (textOf d (aliasFragments aliasName)) aliasName rest :=
    .aliasPart regular (follows.breaks (by decide)) (follows.skip (by decide) (by decide))
  have stops := behind.breaks (by decide)
  cases schema with
  | none =>
    rw [Table.textOf_plain, ← List.nil_append (textOf d (aliasFragments aliasName))]
    refine .bind (.quoted d name ?_) (.bind (.unseen ?_ (.pure (none, name) _)) aliasRead.last)
    · exact stops
    · exact behind.skip (by decide) (by decide)
  | some schema =>
    rw [Table.textOf_schema]
    refine .bind (.quoted d schema ?_)
      (.bind (.seen ((Reads.quoted d name stops).map _)) aliasRead.last)
    rw [List.append_assoc, List.append_assoc]
    exact breaks_append (by decide) _

theorem begins_table (d : Dialect) (t : Table) (rest : List Char) :
    Begins quotedHeads (textOf d t.fragments ++ rest) := by
  obtain ⟨schema, name, aliasName⟩ := t
  cases schema with
  | none =>
    rw [Table.textOf_plain, List.append_assoc]
    exact begins_quoteChars d _ _
  | some schema =>
    rw [Table.textOf_schema, List.append_assoc]
    exact begins_quoteChars d _ _

/-! ## Joins -/

theorem Reads.join (d : Dialect) {j : Join} (regular : j.isRegular = true) {rest : List Char}
    (stops : breaks rest = true) :
    Reads (Scanner.join d j.kind)
      (textOf d (j.table.fragments ++ .words " ON " :: j.outer.fragments ++
        .words " = " :: j.inner.fragments)) j.visible rest := by
  unfold Join.isRegular at regular
  rw [Bool.and_eq_true, Bool.and_eq_true] at regular
  obtain ⟨⟨table, outer⟩, inner⟩ := regular
  simp only [textOf_append, textOf_words, List.append_assoc]
  refine .bind (.table d table ?_) (.bind (.word " ON " _) (.bind (.column d outer ?_)
    (.bind (.word " = " _) (.last (.tableColumn d inner stops)))))
  · rw [List.append_assoc]
    exact .intro (List.mem_cons_self ..) _
  · rw [List.append_assoc]
    exact breaks_append (by decide) _

/-- The word for the kind of a join. -/
def JoinKind.words : JoinKind → String
  | inner => " INNER JOIN "
  | left => " LEFT JOIN "

theorem textOf_join (d : Dialect) (j : Join) :
    textOf d (spaced j.fragments) = j.kind.words.toList ++
      textOf d (j.table.fragments ++ .words " ON " :: j.outer.fragments ++
        .words " = " :: j.inner.fragments) := by
  rw [Join.fragments, textOf_spaced]
  simp only [textOf_append, textOf_words, List.append_assoc, List.cons_append]
  cases j.kind <;> rfl

theorem ends_joins (d : Dialect) (joins : List Join) {rest : List Char}
    (follows : Ends afterJoins rest) :
    Ends afterSource (textOf d (joins.flatMap fun j => spaced j.fragments) ++ rest) := by
  cases joins with
  | nil => exact follows.mono (by decide)
  | cons j joins =>
    rw [List.flatMap_cons, textOf_append, textOf_join, List.append_assoc, List.append_assoc]
    refine .intro ?_ _
    cases j.kind <;> decide

theorem Reads.joins (d : Dialect) {joins : List Join} {n : Nat} (enough : joins.length ≤ n)
    (regular : joins.all Join.isRegular = true) {rest : List Char}
    (follows : Ends afterJoins rest) :
    Reads (Scanner.joins d n) (textOf d (joins.flatMap fun j => spaced j.fragments))
      (joins.map Join.visible) rest := by
  induction joins generalizing n with
  | nil =>
    cases n with
    | zero => exact .pure [] rest
    | succ n =>
      refine .unseen (follows.skip (by decide) (by decide)) (.unseen ?_ (.pure [] rest))
      exact follows.skip (by decide) (by decide)
  | cons j joins ih =>
    obtain ⟨n, rfl⟩ : ∃ m, n = m + 1 := ⟨n - 1, by rw [List.length_cons] at enough; omega⟩
    rw [List.all_cons, Bool.and_eq_true] at regular
    have others := ih (Nat.le_of_succ_le_succ enough) regular.2
    have stops := (ends_joins d joins follows).breaks (by decide)
    have first := Reads.join d regular.1 stops
    rw [List.flatMap_cons, textOf_append, textOf_join, List.append_assoc]
    cases shape : j.kind with
    | inner =>
      rw [shape] at first
      exact .seen (.bind first others.last)
    | left =>
      rw [shape] at first
      refine .unseen ?_ (.seen (.bind first others.last))
      rw [List.append_assoc]
      exact skip_of_clash (by decide) _

/-! ## Projections -/

/-- What a column begins with. -/
def columnHeads : List String := "t" :: quotedHeads

theorem begins_tableColumn (d : Dialect) {c : TableColumn} (regular : c.isRegular = true)
    (rest : List Char) : Begins columnHeads (textOf d c.fragments ++ rest) := by
  obtain ⟨name, role, aliasName⟩ := c
  cases aliasName with
  | none =>
    rw [TableColumn.textOf_plain]
    exact (begins_quoteChars d _ _).mono fun w member => List.mem_cons_of_mem _ member
  | some a =>
    obtain ⟨ds, shape, -⟩ := toList_of_isNumbered (show isNumbered "t" a = true from regular)
    rw [TableColumn.textOf_addressed, shape, List.append_assoc, List.append_assoc]
    exact .intro (List.mem_cons_self ..) _

theorem begins_column (d : Dialect) {c : Column} (regular : c.isRegular = true)
    (rest : List Char) : Begins columnHeads (textOf d c.fragments ++ rest) :=
  begins_tableColumn d (c := ⟨c.name, .scalar, c.aliasName⟩) regular rest

/-- What may follow an item of a projection. -/
def afterColumn : List String := [", ", " FROM "]

theorem Reads.projection (d : Dialect) {p : Projection} (regular : p.isRegular = true) {n : Nat}
    (enough : sizeOf p ≤ n) (rest : List Char) :
    Reads (Scanner.projection d n) (textOf d p.fragments) p.visible (" FROM ".toList ++ rest) := by
  cases p with
  | one => exact .seen (w := "1") (.pure Projection.one _)
  | count =>
    refine .unseen ?_ (.seen (w := "COUNT(*)") (.pure Projection.count _))
    exact skip_of_clash (a := "COUNT(*)".toList) (by decide) _
  | columns cs =>
    have text : textOf d (Projection.columns cs).fragments =
        joined ", " (cs.map fun c => textOf d c.fragments) := by
      rw [Projection.fragments, textOf_separated, List.map_map]
      rfl
    have each : ∀ c ∈ cs, c.isRegular = true := List.all_eq_true.1 regular
    have heads : Begins (" FROM " :: columnHeads)
        (joined ", " (cs.map fun c => textOf d c.fragments) ++ (" FROM ".toList ++ rest)) := by
      cases cs with
      | nil => exact .intro (List.mem_cons_self ..) _
      | cons c cs =>
        rw [List.map_cons, joined, List.append_assoc]
        exact (begins_column d (each c (List.mem_cons_self ..)) _).mono
          fun w member => List.mem_cons_of_mem _ member
    have columns : Reads (Scanner.listOf ", " (Scanner.column d) n)
        (joined ", " (cs.map fun c => textOf d c.fragments)) (cs.map Column.visible)
        (" FROM ".toList ++ rest) := by
      refine .listOf (Ends afterColumn) ?_ ?_ ?_ ?_ ?_ ?_ ?_
      · intro c member rest follows
        exact .column d (each c member) (follows.breaks (by decide))
      · exact fun rest => .intro (by decide) rest
      · have := length_le_sizeOf cs
        simp only [Projection.columns.sizeOf_spec] at enough
        omega
      · exact .intro (by decide) rest
      · exact skip_of_clash (by decide) _
      · intro c member rest
        exact (begins_column d (each c member) rest).item (by decide)
      · rfl
    rw [text]
    refine .unseen (heads.skip (by decide)) (.unseen (heads.skip (by decide)) ?_)
    exact columns.map Projection.columns

/-! ## Windows -/

@[simp] theorem textOf_number (d : Dialect) (n : Nat) (fs : List Fragment) :
    textOf d (numberFragment n :: fs) = Digits.ofNat n ++ textOf d fs := by
  rw [numberFragment, textOf_words, String.toList_ofList]

theorem ends_countClause (d : Dialect) (before : String) (c : Option Nat) {words : List String}
    {rest : List Char} (follows : Ends words rest) :
    Ends (before :: words) (textOf d (countClause before c) ++ rest) := by
  cases c with
  | none => exact follows.mono fun w member => List.mem_cons_of_mem _ member
  | some n =>
    rw [countClause, textOf_words, List.append_assoc]
    exact .intro (List.mem_cons_self ..) _

theorem Reads.count (d : Dialect) (before : String) (c : Option Nat) {rest : List Char}
    (stops : breaks rest = true) (absent : skip before.toList rest = none) :
    Reads (Scanner.count before) (textOf d (countClause before c)) c rest := by
  cases c with
  | none => exact .unseen absent (.pure none rest)
  | some n =>
    have text : textOf d (countClause before (some n)) = before.toList ++ Digits.ofNat n := by
      simp [countClause]
    rw [text]
    exact .seen ((Reads.number n stops).map some)

/-- A limit and an offset, as PostgreSQL and MySQL write them. -/
theorem Reads.counts {α : Type} (d : Dialect) (limit offset : Option Nat)
    (make : Option Nat → Option Nat → α) {rest : List Char} (follows : Ends afterSelect rest) :
    Reads (Scanner.count " LIMIT " >>= fun l => Scanner.count " OFFSET " >>= fun o =>
        Pure.pure (make l o))
      (textOf d (countClause " LIMIT " limit ++ countClause " OFFSET " offset)) (make limit offset)
      rest := by
  have behind := ends_countClause d " OFFSET " offset follows
  rw [textOf_append]
  refine .bind (.count d _ limit (behind.breaks (by decide)) (behind.skip (by decide) (by decide)))
    (.last (f := make limit) (.count d _ offset ?_ ?_))
  · exact follows.breaks (by decide)
  · exact follows.skip (by decide) (by decide)

/-- An offset and perhaps a limit behind it, as SQL Server writes them. -/
theorem Reads.offsetRows (d : Dialect) (limit : Option Nat) (offset : Nat) {rest : List Char}
    (follows : Ends afterSelect rest) :
    Reads (Scanner.window .sqlServer)
      (textOf d ([.words " OFFSET ", numberFragment offset, .words " ROWS"] ++
        match limit with
        | none => []
        | some n => [.words " FETCH NEXT ", numberFragment n, .words " ROWS ONLY"]))
      ⟨limit, some offset⟩ rest := by
  simp only [textOf_append, textOf_words, textOf_number, textOf_nil, List.append_nil,
    List.append_assoc]
  refine .seen (.bind (.number offset ?_) (.bind (.word " ROWS" _) ?_))
  · rw [List.append_assoc]
    exact breaks_append (by decide) _
  · cases limit with
    | none =>
      exact .last (f := fun l => Window.mk l (some offset))
        (.unseen (follows.skip (by decide) (by decide)) (.pure none rest))
    | some n =>
      simp only [textOf_words, textOf_number, textOf_nil, List.append_nil]
      refine .last (f := fun l => Window.mk l (some offset))
        (.seen (.bind (.number n ?_) (.last (f := fun _ => some n) (.word " ROWS ONLY" _))))
      exact breaks_append (by decide) _

theorem Reads.window (d : Dialect) {w : Window} (regular : w.isRegular = true) {rest : List Char}
    (follows : Ends afterSelect rest) :
    Reads (Scanner.window d) (textOf d (windowFragments d true w)) (w.visible d) rest := by
  obtain ⟨limit, offset⟩ := w
  cases d with
  | postgreSql =>
    have text : windowFragments .postgreSql true ⟨limit, offset⟩ =
        countClause " LIMIT " limit ++ countClause " OFFSET " offset := by
      cases limit <;> cases offset <;> rfl
    rw [text]
    exact .counts .postgreSql limit offset Window.mk follows
  | mySql =>
    cases whole : (Window.mk limit offset).isAll with
    | true =>
      obtain ⟨rfl, rfl⟩ : limit = none ∧ offset = none := by simpa [Window.isAll] using whole
      exact .counts .mySql none none (fun l o => Window.mk (l.filter (· ≠ unlimited)) o) follows
    | false =>
      have text : windowFragments .mySql true ⟨limit, offset⟩ =
          countClause " LIMIT " (some (limit.getD unlimited)) ++ countClause " OFFSET " offset := by
        rw [windowFragments, whole]
        rfl
      have value : (some (limit.getD unlimited)).filter (· ≠ unlimited) = limit := by
        cases limit with
        | none => simp
        | some n =>
          -- A limit of 32 bits is none that stands for all rows.
          have small : n < Nat.pow 2 32 := of_decide_eq_true regular
          have other : n ≠ unlimited := by
            have wide : Nat.pow 2 32 ≤ unlimited := by decide
            omega
          simp [other]
      have reads := Reads.counts .mySql (some (limit.getD unlimited)) offset
        (fun l o => Window.mk (l.filter (· ≠ unlimited)) o) follows
      simp only [value] at reads
      rw [text]
      exact reads
  | sqlServer =>
    cases limit with
    | none =>
      cases offset with
      | none => exact .unseen (follows.skip (by decide) (by decide)) (.pure Window.all rest)
      | some k => exact .offsetRows .sqlServer none k follows
    | some n =>
      have text : windowFragments .sqlServer true ⟨some n, offset⟩ =
          [.words " OFFSET ", numberFragment (offset.getD 0), .words " ROWS"] ++
            [.words " FETCH NEXT ", numberFragment n, .words " ROWS ONLY"] := rfl
      rw [text]
      exact .offsetRows .sqlServer (some n) (offset.getD 0) follows

theorem ends_window (d : Dialect) (w : Window) {rest : List Char} (follows : Ends afterSelect rest) :
    Ends afterOrder (textOf d (windowFragments d true w) ++ rest) := by
  unfold windowFragments
  cases whole : w.isAll with
  | true => exact follows.mono (by decide)
  | false =>
    have counts (limit : Option Nat) : Ends afterOrder
        (textOf d (countClause " LIMIT " limit ++ countClause " OFFSET " w.offset) ++ rest) := by
      rw [textOf_append, List.append_assoc]
      exact ends_countClause d _ limit (ends_countClause d _ w.offset follows)
    cases d with
    | postgreSql => exact counts w.limit
    | mySql => exact counts (some (w.limit.getD unlimited))
    | sqlServer => exact .intro (w := " OFFSET ") (by decide) _

/-- The order that SQL Server is given where a window has none. -/
def impliedOrder (d : Dialect) (ordered : Bool) (w : Window) : List Fragment :=
  match d with
  | .sqlServer => if w.isAll || ordered then [] else [.words " ORDER BY (SELECT NULL)"]
  | _ => []

theorem windowFragments_eq (d : Dialect) (ordered : Bool) (w : Window) :
    windowFragments d ordered w = impliedOrder d ordered w ++ windowFragments d true w := by
  unfold windowFragments
  cases whole : w.isAll with
  | true => cases d <;> simp [impliedOrder, whole]
  | false => cases d <;> cases ordered <;> simp [impliedOrder, whole]

end ResourceSql.Sql
