/-
Counts. The select that counts and the select that reads join other tables, but
neither loses or repeats a resource that is asked for by what it joins: the
count is the number of different resources that are read
(`Compile.count_of_rows`).
-/
import Mathlib.Data.List.Dedup
import ResourceSql.Proofs.Paging

namespace ResourceSql

section

variable {g : Engine} {db : Database} {c : Context} {r : Resource} {table : Sql.Table}
  {q : Request.Query} {p p' : Progress} {s : Sql.Select} {primaryKey : Attribute}

/-- No two rows that are asked for have the same primary key. -/
theorem Graph.nodup_keys (honoured : db.Honours g c.metadata)
    (found : c.metadata.findResource r.name = .ok r) (identified : r.primaryKey = .ok primaryKey) :
    ((Graph.askedRows g db c r q).map fun row => row primaryKey.column).Nodup :=
  (honoured.unique found identified).sublist (List.filter_sublist.map _)

/-- A list without repetitions is as long as another one without those of it, if they have the same
elements. -/
theorem length_dedup {α : Type} [DecidableEq α] {as bs : List α} (nodup : bs.Nodup)
    (same : ∀ a, a ∈ as ↔ a ∈ bs) : as.dedup.length = bs.length := by
  refine List.Perm.length_eq ((List.perm_ext_iff_of_nodup (List.nodup_dedup as) nodup).2 fun a => ?_)
  rw [List.mem_dedup, same]

namespace Compile

/-- Without a window, all resources that are asked for are read. -/
theorem mem_keys_plainRows (honoured : db.Honours g c.metadata) (all : q.window.isAll = true)
    (stored : r.table table.aliasName = table) (sound : Sound c (r.root table) r p)
    (identified : r.primaryKey = .ok primaryKey) (run : plainRows c q r table p = .ok s p')
    (key : Value) :
    key ∈ s.keys g db ↔ key ∈ (Graph.askedRows g db c r q).map fun row => row primaryKey.column := by
  obtain ⟨t, filter, terms, columns, arranged, -, read, rfl, -, -⟩ :=
    plainRows_ok honoured stored sound (FitsFields.any c r) (fun _ _ _ _ _ _ => trivial) run
  have heads : ∀ row ∈ Graph.askedRows g db c r q, ∀ e ∈ Asked.joined g db table t .empty row,
      (columns.map e.column).head? = some (row primaryKey.column) := fun row asked e member =>
    arranged.head_values honoured identified read (List.mem_filter.1 asked).1 member
  rw [Sql.Select.mem_keys_iff rfl all, arranged.matched]
  simp only [List.mem_flatMap, List.mem_map]
  constructor
  · rintro ⟨e, ⟨row, asked, member⟩, head⟩
    rw [heads row asked e member] at head
    exact ⟨row, asked, Option.some.inj head⟩
  · rintro ⟨row, asked, rfl⟩
    obtain ⟨e, member⟩ := List.exists_mem_of_ne_nil _
      (arranged.joined_ne_nil honoured (List.mem_filter.1 asked).1 .empty)
    exact ⟨e, ⟨row, asked, member⟩, heads row asked e member⟩

/-- The select that counts gives the number of rows that are asked for. -/
theorem result_rowCount (honoured : db.Honours g c.metadata)
    (opened : openTable c q.resource .start = .ok (r, table) p)
    (asked : c.metadata.checkAsked r q.id q.filter = .ok ()) :
    ∃ counted, (rowCount c q).result = .ok counted ∧
      counted.result g db .empty = [[g.number (Graph.askedRows g db c r q).length]] := by
  obtain ⟨t, filter, counts, toOne, accepted⟩ :=
    rowCount_exists honoured opened asked
  have single : ∀ row ∈ Graph.askedRows g db c r q,
      (Asked.joined g db table t .empty row).length = 1 := by
    intro row asked
    obtain ⟨e, same⟩ := counts.joined_toOne honoured toOne (List.mem_filter.1 asked).1 .empty
    rw [same, List.length_singleton]
  refine ⟨_, accepted, ?_⟩
  rw [Sql.Select.result_count rfl rfl, counts.matched, List.length_flatMap,
    List.map_congr_left single]
  simp

/-- **The count of a query is the number of resources that it reads.** A query without a window that
is compiled can be counted; the count is the number of different resources among the rows, and the
number of rows if all that is read along is single. -/
theorem count_of_rows (honoured : db.Honours g c.metadata) (all : q.window.isAll = true)
    (accepted : (rows c q).result = .ok s) :
    ∃ counted r, (rowCount c q).result = .ok counted ∧
      c.metadata.findResource q.resource = .ok r ∧
      counted.result g db .empty = [[g.number (s.keys g db).dedup.length]] ∧
      ((∀ path ∈ q.includes, c.metadata.leadsToMany r path = false) →
        (s.result g db .empty).length = (s.keys g db).dedup.length) := by
  obtain ⟨p', run⟩ := result_ok.1 accepted
  obtain ⟨⟨r, table⟩, p, opened, run⟩ := bind_eq_ok.1 run
  obtain ⟨found, stored, sound⟩ := openTable_ok opened
  dsimp only at run
  rw [all] at run
  have plain : plainRows c q r table p = .ok s p' := run
  have known := Metadata.findResource_self found
  obtain ⟨asked, -, root, joins, columns, same, read⟩ :=
    parts_of_run honoured stored sound (.inr plain)
  have named : c.metadata.findResource root.resource = .ok r := by
    rw [same]
    exact known
  obtain ⟨primaryKey, -, identified, -⟩ := columnsRead_head named read
  obtain ⟨counted, counts, result⟩ := result_rowCount honoured opened asked
  have length : (s.keys g db).dedup.length = (Graph.askedRows g db c r q).length := by
    rw [length_dedup (Graph.nodup_keys honoured known identified)
      (mem_keys_plainRows honoured all stored sound identified plain), List.length_map]
  refine ⟨counted, r, counts, found, by rw [result, length], fun toOne => ?_⟩
  obtain ⟨values, rows, -⟩ := result_plainRows honoured stored sound identified toOne plain
  rw [rows, List.length_map, Graph.page, Window.of_isAll all, List.length_mergeSort, length]

end Compile

end

/-- All books, with the books that they are sequels of. -/
def Sample.all : Request.Query := { Sample.query with window := .all }

theorem Compile.count_of_rows_books : ∃ s counted, (rows Sample.context Sample.all).result = .ok s ∧
    (rowCount Sample.context Sample.all).result = .ok counted ∧
    counted.result Sample.engine Sample.database .empty =
      [[Sample.engine.number (s.keys Sample.engine Sample.database).dedup.length]] := by
  obtain ⟨s, accepted⟩ : ∃ s, (rows Sample.context Sample.all).result = .ok s := ⟨_, rfl⟩
  obtain ⟨counted, r, counts, -, result, -⟩ := count_of_rows Sample.honours rfl accepted
  exact ⟨s, counted, accepted, counts, result⟩

end ResourceSql
