/-
Configurations in files. Writing one leaves its document where the program looks
for it, and reading that file gives the configuration back
(`Configuration.read_written`): putting a file somewhere does not change where
other paths lead (`FileTree.locate_put`), and the schema that is written beside
the configuration lies somewhere else.
-/
import ResourceSql.CommandLine.Program
import ResourceSql.Proofs.Configurations
import ResourceSql.Proofs.Graph

namespace ResourceSql

namespace FileTree

variable {tree changed : FileTree} {place other : List String}

/-! ## Entries -/

theorem entryAt_put_self (placed : place ≠ []) (entry : FileEntry) :
    entryAt (tree.put place entry) place = some entry := by
  cases place with
  | nil => exact absurd rfl placed
  | cons part rest => simp [entryAt, put]

theorem entryAt_put_other (different : other ≠ place) (entry : FileEntry) :
    entryAt (tree.put place entry) other = tree.entryAt other := by
  have found : ∀ entries : List (List String × FileEntry),
      (entries.filter (·.1 ≠ place)).lookup other = entries.lookup other := by
    intro entries
    induction entries with
    | nil => rfl
    | cons head rest ih =>
      by_cases same : head.1 = place
      · have skipped : (other == head.1) = false := by
          rw [same]
          exact beq_eq_false_iff_ne.2 different
        rw [List.filter_cons_of_neg (by simpa using same), ih, List.lookup_cons, skipped]
      · rw [List.filter_cons_of_pos (by simpa using same), List.lookup_cons, List.lookup_cons, ih]
  have skipped : (other == place) = false := beq_eq_false_iff_ne.2 different
  simp only [entryAt, put, List.lookup_cons, skipped, found]

/-! ## Paths -/

/-- A file that is put where no directory is does not change where a path leads. -/
theorem locate_put {path text : String} {q : List String}
    (free : tree.entryAt place ≠ some .directory) (located : tree.locate path = .ok q) :
    (tree.put place (.file text)).locate path = .ok q := by
  have steps : ∀ (parts : List String) (start : List String),
      parts.foldlM tree.step start = .ok q →
        parts.foldlM (tree.put place (.file text)).step start = .ok q := by
    intro parts
    induction parts with
    | nil => exact fun _ => id
    | cons part parts ih =>
      intro start led
      rw [List.foldlM_cons] at led ⊢
      obtain ⟨next, stepped, led⟩ : ∃ next, tree.step start part = .ok next ∧
          parts.foldlM tree.step next = .ok q := by
        cases stepped : tree.step start part with
        | ok next => exact ⟨next, rfl, by simpa [stepped, bind, Except.bind] using led⟩
        | error e => simp [stepped, bind, Except.bind] at led
      have stay : (tree.put place (.file text)).step start part = tree.step start part := by
        have different : start ≠ place := by
          rintro rfl
          unfold step at stepped
          split at stepped
          · cases stepped
          · cases stepped
          · exact free ‹_›
        unfold step
        rw [entryAt_put_other different]
      rw [stay, stepped]
      exact ih next led
  unfold locate at located ⊢
  split at located
  · cases located
  · rename_i relative
    rw [if_neg relative]
    exact steps _ _ located

theorem splitPath_of_none {name : List Char} (plain : '/' ∉ name) : splitPath name = [name] := by
  induction name with
  | nil => rfl
  | cons c name ih =>
    have other : c ≠ '/' := fun same => plain (by simp [same])
    rw [splitPath, if_neg other, ih fun member => plain (List.mem_cons_of_mem _ member)]

/-- What is put behind a path without a slash belongs to its last part. -/
theorem splitPath_append (path : List Char) : ∃ before last, ∀ name, '/' ∉ name →
    splitPath (path ++ name) = before ++ [last ++ name] := by
  induction path with
  | nil => exact ⟨[], [], fun name plain => by simpa using splitPath_of_none plain⟩
  | cons c path ih =>
    obtain ⟨before, last, split⟩ := ih
    by_cases slash : c = '/'
    · refine ⟨[] :: before, last, fun name plain => ?_⟩
      rw [List.cons_append, splitPath, if_pos slash, split name plain]
      rfl
    · cases before with
      | nil =>
        refine ⟨[], c :: last, fun name plain => ?_⟩
        rw [List.cons_append, splitPath, if_neg slash, split name plain]
        rfl
      | cons part before =>
        refine ⟨(c :: part) :: before, last, fun name plain => ?_⟩
        rw [List.cons_append, splitPath, if_neg slash, split name plain]
        rfl

/-- A name of a file; it is no step to a directory. -/
def isFileName (name : String) : Bool := 2 < name.toList.length && !name.toList.contains '/'

theorem step_name {start next : List String} {part : String} (long : 2 < part.toList.length)
    (stepped : tree.step start part = .ok next) : next = start ++ [part] := by
  have here : ¬ (part = "" ∨ part = ".") := by
    rintro (rfl | rfl) <;> exact absurd long (by decide)
  have up : part ≠ ".." := by
    rintro rfl
    exact absurd long (by decide)
  unfold step at stepped
  split at stepped
  · cases stepped
  · cases stepped
  · rw [if_neg here, if_neg up] at stepped
    exact (Except.ok.inj stepped).symm

/-- Files of a directory lie in places that differ in the end, as their names do. -/
theorem locate_files (directory : String) : ∃ last : List Char, ∀ name, isFileName name = true →
    ∀ {tree : FileTree} {place : List String},
      tree.locate (CommandLine.pathIn directory name) = .ok place →
        ∃ above, place = above ++ [String.ofList (last ++ name.toList)] := by
  obtain ⟨base, based⟩ :
      ∃ base : String, ∀ name, CommandLine.pathIn directory name = base ++ name := by
    unfold CommandLine.pathIn
    split
    · exact ⟨directory, fun _ => rfl⟩
    · exact ⟨directory ++ "/", fun _ => rfl⟩
  obtain ⟨before, last, split⟩ := splitPath_append base.toList
  refine ⟨last, fun name proper {tree place} located => ?_⟩
  simp only [isFileName, Bool.and_eq_true, decide_eq_true_eq, Bool.not_eq_true'] at proper
  obtain ⟨long, plain⟩ := proper
  have parted : parts (base ++ name) =
      before.map String.ofList ++ [String.ofList (last ++ name.toList)] := by
    rw [parts, String.toList_append, split name.toList (by simpa using plain)]
    simp
  rw [based, locate] at located
  split at located
  · cases located
  · rw [parted, List.foldlM_append] at located
    obtain ⟨above, -, stepped⟩ := Except.bind_eq_ok.1 located
    rw [List.foldlM_cons] at stepped
    simp only [List.foldlM_nil, bind_pure] at stepped
    exact ⟨above, step_name (by simp; omega) stepped⟩

/-! ## Writing and reading -/

theorem write_ok {path text : String} (written : tree.write path text = .ok changed) :
    ∃ place, tree.locate path = .ok place ∧ tree.entryAt place ≠ some .directory ∧
      changed = tree.put place (.file text) := by
  unfold write at written
  split at written
  · cases written
  · rename_i place located
    refine ⟨place, located, ?_⟩
    split at written
    · cases written
    · rename_i free
      exact ⟨free, (Except.ok.inj written).symm⟩
    · cases written
    · cases written

theorem read_eq_ok {path text : String} (located : tree.locate path = .ok place)
    (held : tree.entryAt place = some (.file text)) : tree.read path = .ok text := by
  rw [read, located]
  simp only [held]

end FileTree

namespace CommandLine

open FileTree

theorem attempt_apply (tree : FileTree) (change : FileTree → Except FileError FileTree)
    (failure : String → Failure) :
    (attempt (m := StateM FileTree) (changing change) failure).run tree =
      match change tree with
      | .ok next => (.ok (), next)
      | .error e => (.error (failure e.message), tree) := by
  cases made : change tree <;>
    simp [attempt, changing, made, ExceptT.run, bind, ExceptT.bind, ExceptT.mk, StateT.bind, liftM,
      monadLift, MonadLift.monadLift, ExceptT.lift, Functor.map, StateT.map, ExceptT.bindCont] <;>
    rfl

/-- A change of files that succeeds, and what is done after it. -/
theorem attempt_changing {tree changed : FileTree} {change : FileTree → Except FileError FileTree}
    {failure : String → Failure} {rest : ExceptT Failure (StateM FileTree) Unit}
    (run : (attempt (changing change) failure >>= fun _ => rest).run tree = (.ok (), changed)) :
    ∃ made, change tree = .ok made ∧ rest.run made = (.ok (), changed) := by
  have first := attempt_apply tree change failure
  rw [ExceptT.run_bind] at run
  cases made : change tree with
  | ok next =>
    rw [made] at first
    exact ⟨next, rfl, by simpa [bind, StateT.bind, first] using run⟩
  | error e =>
    rw [made] at first
    simp only [bind, StateT.bind, first] at run
    cases run

theorem writeConfiguration_run {tree changed : FileTree} {directory : String} {c : Configuration}
    (written : (writeConfiguration access directory c).run tree = (.ok (), changed)) :
    ∃ made middle, tree.makeDirectory directory = .ok made ∧
      made.write (configurationFile directory) c.toText = .ok middle ∧
      middle.write (schemaFile directory) Schema.text = .ok changed := by
  obtain ⟨made, prepared, written⟩ := attempt_changing written
  obtain ⟨middle, first, written⟩ := attempt_changing written
  refine ⟨made, middle, prepared, first, ?_⟩
  have second := attempt_apply middle (·.write (schemaFile directory) Schema.text)
    .unwritableConfiguration
  cases last : middle.write (schemaFile directory) Schema.text with
  | ok next =>
    rw [last] at second
    have same := second.symm.trans written
    rw [(Prod.mk.inj same).2]
  | error e =>
    rw [last] at second
    have same := second.symm.trans written
    cases (Prod.mk.inj same).1

end CommandLine

namespace Configuration

open CommandLine FileTree

/-- A written configuration is what its file is read as, whatever it holds and whatever other files
there are. -/
theorem read_written {tree changed : FileTree} {directory : String} {c : Configuration}
    (current : c.version = currentVersion)
    (written : (writeConfiguration access directory c).run tree = (.ok (), changed)) :
    ∃ text, changed.read (configurationFile directory) = .ok text ∧ ofText text = .ok c := by
  obtain ⟨made, middle, -, first, second⟩ := writeConfiguration_run written
  obtain ⟨place, located, free, rfl⟩ := write_ok first
  obtain ⟨beside, located', free', rfl⟩ := write_ok second
  refine ⟨c.toText, ?_, ofText_toText current⟩
  obtain ⟨last, ends⟩ := locate_files directory
  obtain ⟨above, rfl⟩ := ends "configuration.json" (by decide) located
  obtain ⟨above', rfl⟩ := ends "schema.json" (by decide) located'
  have apart : above ++ [String.ofList (last ++ "configuration.json".toList)] ≠
      above' ++ [String.ofList (last ++ "schema.json".toList)] := by
    intro same
    have names := String.ofList_injective (List.singleton_inj.1 (List.append_inj' same rfl).2)
    exact absurd (List.append_cancel_left names) (by decide)
  refine read_eq_ok (locate_put free' (locate_put free located)) ?_
  rw [entryAt_put_other apart, entryAt_put_self (by simp)]

/-- A configuration with a name that has to be escaped. -/
def books : Configuration where
  version := currentVersion
  dialect := .mySql
  metadata := {
    resources := ⟨[("book", {
      schema := none
      table := "the \"old\"\nbooks \x01"
      primaryKey := "id"
      attributes := ⟨[("id", ⟨"id", .integer, false, none⟩)], by decide⟩
      relationships := .empty })], by decide⟩
    enumTypes := ⟨[("genre", ⟨["prose", "verse"]⟩)], by decide⟩ }

theorem read_written_books : ∃ changed,
    (writeConfiguration access "library" books).run .empty = (.ok (), changed) ∧
    ∃ text, changed.read (configurationFile "library") = .ok text ∧ ofText text = .ok books := by
  have done : ((writeConfiguration access "library" books).run .empty).1.toBool = true := by
    decide +kernel
  obtain ⟨changed, written⟩ : ∃ changed,
      (writeConfiguration access "library" books).run .empty = (.ok (), changed) := by
    cases ran : (writeConfiguration access "library" books).run .empty with
    | mk outcome changed =>
      rw [ran] at done
      cases outcome with
      | ok _ => exact ⟨changed, rfl⟩
      | error e => cases done
  exact ⟨changed, written, read_written rfl written⟩

end Configuration

end ResourceSql
