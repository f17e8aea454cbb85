/-
Relationships that an update sets. Each of them ends with the related rows referring
to the resource (`setRelationship_points`), and what comes before and after it in the
update keeps both ends of that: the primary keys by which rows are found, and the
foreign keys of other relationships (`setRelationships_point`). This takes an update
that leaves primary keys alone. An update that gives the row another primary key
still links by the identifier the row had, so that nothing links to it in the end.
-/
import ResourceSql.Configuration.Consistency
import ResourceSql.Proofs.Writes

namespace ResourceSql

/-! ## Columns that stay the same -/

section

variable {g : Engine} {owner : Value} {schema : Option String} {table column : String}

theorem Resource.updated_keeps {r : Resource} {values : List (String × Value)}
    (h : schema = (r.table none).schema → table = (r.table none).name →
      ∀ entry ∈ values, entry.1 ≠ column) :
    (r.updated g owner values).Keeps schema table column := by
  refine .inTable fun here there row row' done => ?_
  rw [← Option.some.inj done, Row.setAll_other (h here there)]

theorem ForeignKey.detached_keeps {key : ForeignKey} {target : Resource} {chosen : Row → Truth}
    (h : schema = (target.table none).schema → table = (target.table none).name →
      column ≠ key.column) :
    (key.detached g target owner chosen).Keeps schema table column := by
  refine .inTable fun here there row row' done => ?_
  split at done
  · rw [← Option.some.inj done, Row.set_other (h here there)]
  · cases done

theorem ForeignKey.attached_keeps {key : ForeignKey} {target : Resource} {values : List Value}
    (h : schema = (target.table none).schema → table = (target.table none).name →
      column ≠ key.column) :
    (key.attached g target owner values).Keeps schema table column := by
  refine .inTable fun here there row row' done => ?_
  rw [← Option.some.inj done, Row.set_other (h here there)]

/-- A row keeps its primary key if the change keeps the column of that. -/
theorem Change.keyValue_kept {f : Change} {other : Resource} {row row' : Row}
    (h : ∀ a, other.primaryKey = .ok a →
      f.Keeps (other.table none).schema (other.table none).name a.column)
    (done : f (other.table none).schema (other.table none).name row = some row') :
    Graph.keyValue other row' = Graph.keyValue other row := by
  unfold Graph.keyValue
  cases identified : other.primaryKey with
  | error e => rfl
  | ok a => exact h a identified row row' done

end

/-! ## What an update writes -/

namespace Metadata

/-- A relationship of a resource has its foreign key in a column of a table. -/
def KeyIn (m : Metadata) (r : Resource) (relationship : String) (schema : Option String)
    (table column : String) : Prop :=
  ∃ key holder, ForeignKey.resolve m r relationship = .ok key ∧
    (key.atLeftSide = true ∧ holder = r ∨
      key.atLeftSide = false ∧ m.findResource key.target = .ok holder) ∧
    schema = (holder.table none).schema ∧ table = (holder.table none).name ∧ column = key.column

/-- An update of a resource writes to a column of a table: it gives the row itself a value there, or
the foreign key of one of its relationships lies there. -/
def Writes (m : Metadata) (r : Resource) (attributes : NameMap Json)
    (relationships : NameMap Request.RelationshipData) (schema : Option String)
    (table column : String) : Prop :=
  (schema = (r.table none).schema ∧ table = (r.table none).name ∧
    r.Assigns m attributes relationships column) ∨
  ∃ relationship data, (relationship, data) ∈ relationships.toList ∧
    m.KeyIn r relationship schema table column

end Metadata

/-- After a change, the rows that are named in the data of a relationship refer to the resource, if
they hold the foreign key. -/
def Change.Points (f : Change) (g : Engine) (m : Metadata) (r : Resource) (id : Json)
    (relationship : String) (data : Request.RelationshipData) : Prop :=
  ∀ key target given value row row', ForeignKey.resolve m r relationship = .ok key →
    key.atLeftSide = false → m.findResource key.target = .ok target → given ∈ data.ids →
    m.Identifies target given value → g.compare .equals (Graph.keyValue target row) value = .true →
    f (target.table none).schema (target.table none).name row = some row' →
    m.Identifies r id (row' key.column)

namespace Compile

variable {c : Context} {p q : Progress} {r : Resource} {id : Json} {statements : List Sql.Statement}

/-- Setting a relationship makes the related rows refer to the resource, and writes to no column but
that of the foreign key. -/
theorem setRelationship_points {relationship : String} {data : Request.RelationshipData}
    (remembers : p.Remembers c.metadata) (found : c.metadata.findResource r.name = .ok r)
    (run : setRelationship c r id relationship data p = .ok statements q) (g : Server) :
    ∃ f, Sql.MakeAll g statements f ∧
      (∀ schema table column, ¬ c.metadata.KeyIn r relationship schema table column →
        f.Keeps schema table column) ∧
      f.Points g.toEngine c.metadata r id relationship data := by
  obtain ⟨-, key, resolved, ⟨left, owner, value, identifies, makes⟩ | ⟨right, target, ids, -, owner,
    values, known, related, -, -, identifies, identify, makes⟩⟩ :=
    setRelationship_makes remembers found run
  · refine ⟨_, makes g, fun schema table column other => Resource.updated_keeps ?_, ?_⟩
    · rintro rfl rfl entry member rfl
      obtain rfl := List.mem_singleton.1 member
      exact other ⟨key, r, resolved, .inl ⟨left, rfl⟩, rfl, rfl, rfl⟩
    · intro key' target given value row row' resolved' right
      obtain rfl := Except.ok.inj (resolved.symm.trans resolved')
      rw [left] at right
      cases right
  · refine ⟨_, makes g, fun schema table column other => ?_, ?_⟩
    · have apart : schema = (target.table none).schema → table = (target.table none).name →
          column ≠ key.column := by
        rintro rfl rfl rfl
        exact other ⟨key, target, resolved, .inr ⟨right, known⟩, rfl, rfl, rfl⟩
      exact (ForeignKey.detached_keeps apart).andThen (ForeignKey.attached_keeps apart)
    · intro key' target' given value row row' resolved' _ known' member stands same done
      obtain rfl := Except.ok.inj (resolved.symm.trans resolved')
      obtain rfl := Except.ok.inj (known.symm.trans known')
      have chosen : g.among (Graph.keyValue target row) values = .true := by
        have listed := (relatedIds_eq_ok related).2 member stands.given
        obtain ⟨value', listed', stands'⟩ := forall₂_exists_left identify.flip listed
        rw [stands.unique stands'] at same
        exact Engine.among_eq_true_iff.2 ⟨value', listed', same⟩
      rw [ForeignKey.attached_of_among chosen] at done
      rw [← Option.some.inj done, Row.set_self]
      exact identifies

/-- Relationships that are set one after the other all end with the related rows referring to the
resource, if no two of them share a foreign key, and none of these is part of a primary key. -/
theorem setRelationships_point {g : Server} {others : List (String × Request.RelationshipData)}
    {linked : List (List Sql.Statement)}
    (all : List.Forall₂ (fun (relationship, data) made => ∃ f, Sql.MakeAll g made f ∧
      (∀ schema table column, ¬ c.metadata.KeyIn r relationship schema table column →
        f.Keeps schema table column) ∧
      f.Points g.toEngine c.metadata r id relationship data) others linked)
    (ascending : others.Pairwise (·.1 < ·.1))
    (unshared : ∀ one ∈ others, ∀ other ∈ others, ∀ schema table column,
      c.metadata.KeyIn r one.1 schema table column →
        c.metadata.KeyIn r other.1 schema table column → one.1 = other.1)
    (apart : ∀ other primaryKey, c.metadata.findResource other.name = .ok other →
      other.primaryKey = .ok primaryKey → ∀ entry ∈ others,
        ¬ c.metadata.KeyIn r entry.1 (other.table none).schema (other.table none).name
          primaryKey.column) :
    ∃ f, Sql.MakeAll g linked.flatten f ∧
      (∀ schema table column,
        (∀ entry ∈ others, ¬ c.metadata.KeyIn r entry.1 schema table column) →
          f.Keeps schema table column) ∧
      ∀ entry ∈ others, f.Points g.toEngine c.metadata r id entry.1 entry.2 := by
  induction all with
  | nil =>
    refine ⟨.keep, .nil, fun schema table column _ => Change.keep_keeps schema table column, ?_⟩
    intro entry member
    cases member
  | @cons first made others linked one _ ih =>
    obtain ⟨relationship, data⟩ := first
    obtain ⟨f, makes, keeps, points⟩ := one
    obtain ⟨before, ascending⟩ := List.pairwise_cons.1 ascending
    have alone : ∀ entry ∈ others, ∀ schema table column,
        c.metadata.KeyIn r relationship schema table column →
          ¬ c.metadata.KeyIn r entry.1 schema table column := by
      intro entry member schema table column lies lies'
      have same := unshared _ (List.mem_cons_self ..) entry (List.mem_cons_of_mem _ member) schema
        table column lies lies'
      exact String.lt_irrefl _ (same ▸ before entry member)
    obtain ⟨f', makes', keeps', points'⟩ := ih ascending
      (fun one here other there => unshared one (List.mem_cons_of_mem _ here) other
        (List.mem_cons_of_mem _ there))
      (fun other primaryKey found identified entry member =>
        apart other primaryKey found identified entry (List.mem_cons_of_mem _ member))
    refine ⟨f.andThen f', makes.append makes', ?_, ?_⟩
    · intro schema table column untouched
      obtain ⟨here, later⟩ := List.forall_mem_cons.1 untouched
      exact (keeps schema table column here).andThen (keeps' schema table column later)
    · intro entry member key target given value row row' resolved right known listed stands same done
      obtain ⟨between, before, after⟩ := Change.andThen_eq_some_iff.1 done
      rcases List.mem_cons.1 member with rfl | member
      · have set := points key target given value row between resolved right known listed stands same
          before
        have kept : row' key.column = between key.column := by
          refine keeps' _ _ _ (fun entry member => ?_) between row' after
          exact alone entry member _ _ _ ⟨key, target, resolved, .inr ⟨right, known⟩, rfl, rfl, rfl⟩
        rw [kept]
        exact set
      · have kept : Graph.keyValue target between = Graph.keyValue target row := by
          refine Change.keyValue_kept (fun a identified => keeps _ _ _ ?_) before
          exact apart target a (Metadata.findResource_self known) identified _ (List.mem_cons_self ..)
        rw [← kept] at same
        exact points' entry member key target given value between row' resolved right known listed
          stands same after

/-- What an update does to the row itself keeps the columns that the update does not write to. -/
theorem own_keeps {attributes : NameMap Json} {relationships : NameMap Request.RelationshipData}
    {own : List Sql.Statement}
    (changed : (∀ g : Server, Sql.MakeAll g own .keep) ∨
      ∃ owner values, c.metadata.Identifies r id owner ∧
        (∀ entry ∈ values, r.Assigns c.metadata attributes relationships entry.1) ∧
        ∀ g : Server, Sql.MakeAll g own (r.updated g.toEngine owner values)) (g : Server) :
    ∃ f, Sql.MakeAll g own f ∧ ∀ schema table column,
      ¬ c.metadata.Writes r attributes relationships schema table column →
        f.Keeps schema table column := by
  rcases changed with kept | ⟨owner, values, -, assigned, makes⟩
  · exact ⟨.keep, kept g, fun schema table column _ => Change.keep_keeps schema table column⟩
  · refine ⟨_, makes g, fun schema table column unwritten => Resource.updated_keeps ?_⟩
    rintro rfl rfl entry member rfl
    exact unwritten (.inl ⟨rfl, rfl, assigned entry member⟩)

/-- After an update that writes to no primary key, and in which no two relationships share a foreign
key, the rows that are named in relationships whose foreign keys they hold refer to the updated row. -/
theorem update_points_related {name : String} {attributes : NameMap Json}
    {relationships : NameMap Request.RelationshipData}
    (run : (update c name id attributes relationships).result = .ok statements)
    (found : c.metadata.findResource name = .ok r)
    (unshared : ∀ one ∈ relationships.toList, ∀ other ∈ relationships.toList,
      ∀ schema table column, c.metadata.KeyIn r one.1 schema table column →
        c.metadata.KeyIn r other.1 schema table column → one.1 = other.1)
    (apart : ∀ other primaryKey, c.metadata.findResource other.name = .ok other →
      other.primaryKey = .ok primaryKey → ¬ c.metadata.Writes r attributes relationships
        (other.table none).schema (other.table none).name primaryKey.column) (g : Server) :
    ∃ f, Sql.MakeAll g statements f ∧
      ∀ relationship data key target given value related related',
        (relationship, data) ∈ relationships.toList →
        ForeignKey.resolve c.metadata r relationship = .ok key → key.atLeftSide = false →
        c.metadata.findResource key.target = .ok target → given ∈ data.ids →
        c.metadata.Identifies target given value →
        g.compare .equals (Graph.keyValue target related) value = .true →
        f (target.table none).schema (target.table none).name related = some related' →
        ∀ owner updated updated', c.metadata.Identifies r id owner →
          g.compare .equals (Graph.keyValue r updated) owner = .true →
          f (r.table none).schema (r.table none).name updated = some updated' →
          g.compare .equals (Graph.keyValue r updated') (related' key.column) = .true := by
  obtain ⟨q, run⟩ := result_ok.1 run
  obtain ⟨r', own, others, linked, p₁, found', remembers, given, left, related, rfl, changed⟩ :=
    update_makes_own (Progress.remembers_start c.metadata) run
  obtain rfl := Except.ok.inj (found.symm.trans found')
  have itself := Metadata.findResource_self found
  obtain ⟨-, all⟩ := forEach_run (fun s => s.Remembers c.metadata)
    (fun (relationship, data) made => ∃ f, Sql.MakeAll g made f ∧
      (∀ schema table column, ¬ c.metadata.KeyIn r relationship schema table column →
        f.Keeps schema table column) ∧
      f.Points g.toEngine c.metadata r id relationship data)
    (fun entry _ made s s' remembers run => ⟨(setRelationship_makes remembers itself run).1,
      setRelationship_points remembers itself run g⟩) remembers related
  have unwritten : ∀ other primaryKey, c.metadata.findResource other.name = .ok other →
      other.primaryKey = .ok primaryKey → ∀ entry ∈ others,
        ¬ c.metadata.KeyIn r entry.1 (other.table none).schema (other.table none).name
          primaryKey.column := fun other primaryKey found identified entry member lies =>
    apart other primaryKey found identified (.inr ⟨entry.1, entry.2, given.subset member, lies⟩)
  obtain ⟨f, makes, keeps, points⟩ := setRelationships_point all
    (relationships.ascending.sublist given)
    (fun one here other there => unshared one (given.subset here) other (given.subset there))
    unwritten
  obtain ⟨first, makes', keeps'⟩ := own_keeps changed g
  refine ⟨first.andThen f, makes'.append makes, ?_⟩
  intro relationship data key target id' value row row' member resolved right known listed stands same
    done owner updated updated' identifies own done'
  have renamed : Graph.keyValue r updated' = Graph.keyValue r updated := by
    refine Change.keyValue_kept (fun a identified => ?_) done'
    exact (keeps' _ _ _ (apart r a itself identified)).andThen
      (keeps _ _ _ (unwritten r a itself identified))
  obtain ⟨between, before, after⟩ := Change.andThen_eq_some_iff.1 done
  have kept : Graph.keyValue target between = Graph.keyValue target row :=
    Change.keyValue_kept (fun a identified =>
      keeps' _ _ _ (apart target a (Metadata.findResource_self known) identified)) before
  rw [← kept] at same
  have refers := points _ (left relationship data key member resolved right) key target id' value
    between row' resolved right known listed stands same after
  rw [renamed, refers.unique identifies]
  exact own

end Compile

/-- The first book becomes the prequel of the second one, which gets another title. -/
theorem Compile.update_points_related_books : ∃ statements,
    (update Sample.context "book" (Sample.bookId 2) ⟨[("title", .string "Snark")], by decide⟩
      ⟨[("prequels", .many [Sample.bookId 1])], by decide⟩).result = .ok statements ∧
    ∃ f, Sql.MakeAll Sample.server statements f ∧ ∀ related updated,
      f none "books" (Sample.row 1 "Alice" (.int32 2)) = some related →
      f none "books" (Sample.row 2 "Looking-Glass" .null) = some updated →
      Sample.engine.compare .equals (updated "id") (related "sequel_id") = .true := by
  obtain ⟨statements, run⟩ : ∃ statements, (update Sample.context "book" (Sample.bookId 2)
      ⟨[("title", .string "Snark")], by decide⟩
      ⟨[("prequels", .many [Sample.bookId 1])], by decide⟩).result = .ok statements := ⟨_, rfl⟩
  have found : Sample.context.metadata.findResource "book" = .ok ⟨"book", Sample.book⟩ := rfl
  have first : Sample.context.metadata.Identifies ⟨"book", Sample.book⟩ (Sample.bookId 1) (.int32 1) :=
    ⟨_, rfl, rfl, rfl⟩
  obtain ⟨f, makes, points⟩ := update_points_related run found
    (fun one here other there _ _ _ _ _ => by
      rw [List.mem_singleton.1 here, List.mem_singleton.1 there])
    (fun other primaryKey found identified writes => by
      obtain rfl := Sample.findResource_eq found
      cases identified
      rcases writes with ⟨-, -, ⟨name, value, held, member, found, column⟩ |
        ⟨name, data, key, member, resolved, left, -⟩⟩ |
        ⟨name, data, member, key, holder, resolved, -, -, -, column⟩
      · cases List.mem_singleton.1 member
        cases found
        exact absurd column (by decide)
      · cases List.mem_singleton.1 member
        cases resolved
        cases left
      · cases List.mem_singleton.1 member
        cases resolved
        exact absurd column (by decide)) Sample.server
  refine ⟨statements, run, f, makes, fun related updated done done' => ?_⟩
  exact points "prequels" _ _ ⟨"book", Sample.book⟩ (Sample.bookId 1) (.int32 1) _ related
    (List.mem_singleton.2 rfl) rfl rfl rfl (List.mem_singleton.2 rfl) first (by decide) done
    (.int32 2) _ updated Sample.identifies_book (by decide) done'

/-- The first book is given the identifier 3, but its prequel is left with the identifier 1. -/
theorem Compile.update_renamed_misses : Sample.context.metadata.check = .ok () ∧ ∃ statements,
    (update Sample.context "book" (Sample.bookId 1) ⟨[("id", Sample.bookId 3)], by decide⟩
      ⟨[("prequels", .many [Sample.bookId 2])], by decide⟩).result = .ok statements ∧
    ((Sql.executeAll Sample.server statements Sample.database).rows none "books").map
      (fun row => (row "id", row "sequel_id")) =
        [(.int32 3, .int32 2), (.int32 2, .int32 1)] :=
  ⟨by decide, _, rfl, rfl⟩

end ResourceSql
