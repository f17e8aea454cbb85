/-
Configurations and their documents. What is written of a configuration is read
as that configuration again (`Configuration.ofText_toText`): a decoder reads a
value back if it makes it of every faultless outline of what was written
(`Decoder.Reads`), and decoders of structures do so field by field.
-/
import ResourceSql.Configuration.Document
import ResourceSql.Proofs.JsonTexts

namespace ResourceSql

/-! ## Maps -/

namespace NameMap

variable {α : Type}

/-- A name above all others is entered at the end. -/
theorem insertEntry_last {name : String} {entries : List (String × α)}
    (above : ∀ entry ∈ entries, entry.1 < name) (value : α) :
    insertEntry name value entries = entries ++ [(name, value)] := by
  induction entries with
  | nil => rfl
  | cons head rest ih =>
    obtain ⟨other, held⟩ := head
    have before : other < name := above _ (List.mem_cons_self ..)
    have notAfter : ¬ name < other := fun after => String.lt_irrefl _ (String.lt_trans before after)
    have different : name ≠ other := by
      rintro rfl
      exact String.lt_irrefl _ before
    rw [insertEntry, if_neg notAfter, if_neg different,
      ih fun entry member => above entry (List.mem_cons_of_mem _ member)]
    rfl

theorem eq_of_entries {map other : NameMap α} (same : map.entries = other.entries) :
    map = other := by
  cases map
  cases other
  cases same
  rfl

/-- The entries of a map make the map. -/
theorem ofList_toList (map : NameMap α) : ofList map.toList = map := by
  have built : ∀ (entries : List (String × α)) (start : NameMap α),
      (start.entries ++ entries).Pairwise (·.1 < ·.1) →
        (entries.foldl (fun map entry => map.insert entry.1 entry.2) start).entries =
          start.entries ++ entries := by
    intro entries
    induction entries with
    | nil => intro start _; simp
    | cons entry entries ih =>
      intro start ascending
      have entered : (start.insert entry.1 entry.2).entries = start.entries ++ [entry] := by
        refine insertEntry_last (fun other member => ?_) entry.2
        exact (List.pairwise_append.1 ascending).2.2 other member entry (List.mem_cons_self ..)
      rw [List.foldl_cons, ih _ (by rw [entered]; simpa using ascending), entered]
      simp
  exact eq_of_entries (built map.toList empty map.ascending)

end NameMap

namespace Decoder

variable {α : Type}

/-- The decoder makes the value of whatever shows the JSON value. -/
def Reads (item : Decoder α) (written : Json) (a : α) : Prop :=
  ∀ o, Outline.Shows o written → item o = .ok a

theorem reads_text (s : String) : text.Reads (.string s) s := by
  intro o shown
  cases shown
  rfl

theorem reads_flag (b : Bool) : flag.Reads (.bool b) b := by
  intro o shown
  cases shown
  rfl

theorem reads_count {n : Nat} (small : n < UInt32.size) : count.Reads (.ofNat n) n := by
  intro o shown
  cases shown
  have lower : (0 : Int) ≤ n := Int.natCast_nonneg n
  have upper : (n : Int) < Int.pow 2 32 := by
    have power : Int.pow 2 32 = (UInt32.size : Int) := by decide
    rw [power]
    exact Int.ofNat_lt.2 small
  simp only [count]
  rw [if_pos ⟨lower, upper⟩, Int.toNat_natCast]

theorem reads_optionalText (s? : Option String) :
    (option text).Reads (.ofOption .string s?) s? := by
  intro o shown
  cases s? <;> (cases shown; rfl)

theorem reads_oneOf {names : List (String × α)} {name : String} {a : α}
    (named : names.lookup name = some a) (readBefore : Bool) :
    (oneOf readBefore names).Reads (.string name) a := by
  intro o shown
  cases shown
  simp only [oneOf, named]

theorem reads_list {item : Decoder α} {f : α → Json} (reads : ∀ a, item.Reads (f a) a)
    (as : List α) : (list item).Reads (.array (as.map f)) as := by
  have each : ∀ (as : List α) (items : List Outline), Outline.ShowsItems items (as.map f) →
      Decoded.traverse item items = .ok as := by
    intro as
    induction as with
    | nil =>
      intro items shown
      cases shown
      rfl
    | cons a as ih =>
      intro items shown
      cases shown with
      | cons first rest =>
        rw [Decoded.traverse, reads a _ first, ih _ rest]
        rfl
  intro o shown
  cases shown with
  | array p q shown =>
    simp only [list, each as _ shown]
    rfl

theorem reads_map {item : Decoder α} {f : α → Json} (reads : ∀ a, item.Reads (f a) a)
    (as : NameMap α) : (map item).Reads (as.toJson f) as := by
  have each : ∀ (entries : List (String × α))
      (members : List (Except Fault String × Place × Outline)),
      Outline.ShowsMembers members (entries.map fun entry => (entry.1, f entry.2)) →
        Decoded.traverse (fun member =>
          ((fun a => (member.1.toOption.getD "", a)) <$> item member.2.2).withFault
            (Outline.nameFault? member.1)) members = .ok entries := by
    intro entries
    induction entries with
    | nil =>
      intro members shown
      cases shown
      rfl
    | cons entry entries ih =>
      intro members shown
      cases shown with
      | cons name p first rest =>
        rw [Decoded.traverse, ih _ rest]
        dsimp only
        rw [reads entry.2 _ first]
        rfl
  intro o shown
  cases shown with
  | object p q shown =>
    simp only [map, each as.toList _ shown]
    show Decoded.ok (NameMap.ofList as.toList) = _
    rw [NameMap.ofList_toList]

/-! ## Structures -/

/-- A field is given with an outline that shows a value. -/
def Fields.Give (fields : Fields) (name : String) (written : Json) : Prop :=
  ∃ o, fields.given.lookup name = some o ∧ Outline.Shows o written

theorem memberFault?_none {names seen : List String} {entries : List (String × Json)}
    {members : List (Except Fault String × Place × Outline)}
    (shown : Outline.ShowsMembers members entries)
    (known : ∀ name ∈ entries.map (·.1), name ∈ names)
    (once : (entries.map (·.1)).Nodup) (new : ∀ name ∈ entries.map (·.1), name ∉ seen) :
    memberFault? names seen members = none := by
  induction members generalizing entries seen with
  | nil => rfl
  | cons member members ih =>
    cases shown with
    | @cons o value _ values name p first rest =>
      obtain ⟨apart, once⟩ := List.nodup_cons.1 once
      have here : names.contains name = true := by simpa using known name (by simp)
      have unseen : seen.contains name = false := by simpa using new name (by simp)
      rw [memberFault?, here, unseen]
      refine ih rest (fun other member => known other (List.mem_cons_of_mem _ member)) once ?_
      intro other member seen'
      rcases List.mem_cons.1 seen' with rfl | seen'
      · exact apart member
      · exact new other (List.mem_cons_of_mem _ member) seen'

/-- Every field that was written is given. -/
theorem give_of_mem {entries : List (String × Json)}
    {members : List (Except Fault String × Place × Outline)}
    (shown : Outline.ShowsMembers members entries) (once : (entries.map (·.1)).Nodup)
    (absent : Fault) {name : String} {written : Json} (member : (name, written) ∈ entries) :
    Fields.Give ⟨namedMembers members, absent⟩ name written := by
  induction members generalizing entries with
  | nil =>
    cases shown
    cases member
  | cons head members ih =>
    cases shown with
    | @cons o value _ values other p first rest =>
      obtain ⟨apart, once⟩ := List.nodup_cons.1 once
      rcases List.mem_cons.1 member with same | later
      · cases same
        exact ⟨o, by simp [namedMembers], first⟩
      · have different : name ≠ other := by
          rintro rfl
          exact apart (List.mem_map.2 ⟨(name, written), later, rfl⟩)
        obtain ⟨o', found, shows⟩ := ih rest once later
        refine ⟨o', ?_, shows⟩
        simpa [namedMembers, List.lookup_cons, beq_eq_false_iff_ne.2 different] using found

/-- A structure is read back if it is built from whatever gives its fields. -/
theorem reads_record {names : List String} {build : Fields → Decoded α}
    {entries : List (String × Json)} {a : α} (same : entries.map (·.1) = names)
    (once : names.Nodup)
    (built : ∀ fields : Fields,
      (∀ name written, (name, written) ∈ entries → fields.Give name written) →
        build fields = .ok a) :
    (record names build).Reads (.object entries) a := by
  intro o shown
  cases shown with
  | @object members _ p q shown =>
    subst same
    have fault : memberFault? (entries.map (·.1)) [] members = none :=
      memberFault?_none shown (fun _ => id) once (by simp)
    have made := built ⟨namedMembers members, absentFault (.ok q)⟩
      fun name written => give_of_mem shown once _
    simp only [record, fault, made]
    rfl

variable {fields : Fields} {name : String} {written : Json} {item : Decoder α} {a : α}

theorem Fields.Give.required (give : fields.Give name written) (reads : item.Reads written a) :
    fields.required name item = .ok a := by
  obtain ⟨o, found, shown⟩ := give
  rw [Fields.required, found]
  exact reads o shown

theorem Fields.Give.withDefault (give : fields.Give name written) (reads : item.Reads written a)
    (default : α) : fields.withDefault name default item = .ok a := by
  obtain ⟨o, found, shown⟩ := give
  rw [Fields.withDefault, found]
  exact reads o shown

end Decoder

/-! ## Metadata -/

open Decoder

theorem reads_nullability (nullable : Bool) :
    decodeNullability.Reads (.string (nullability nullable)) nullable :=
  reads_oneOf (by cases nullable <;> decide) false

theorem ScalarType.reads (t : ScalarType) : ScalarType.decode.Reads (.string t.name) t :=
  reads_oneOf (by cases t <;> decide) false

theorem RelationshipKind.reads (k : RelationshipKind) :
    RelationshipKind.decode.Reads (.string k.name) k :=
  reads_oneOf (by cases k <;> decide) false

theorem DeleteBehavior.reads (b : DeleteBehavior) :
    DeleteBehavior.decode.Reads (.string b.name) b :=
  reads_oneOf (by cases b <;> decide) false

theorem Dialect.reads (d : Dialect) : Dialect.decode.Reads (.string d.name) d :=
  reads_oneOf (by cases d <;> decide) false

theorem Attribute.reads (a : Attribute) : Attribute.decode.Reads a.toJson a := by
  refine reads_record rfl (by decide) fun fields give => ?_
  have column := (give "name" _ (by simp)).required (reads_text a.column)
  have type := (give "type" _ (by simp)).required a.type.reads
  have nullable := (give "nullable" _ (by simp)).withDefault (reads_nullability a.nullable) true
  have enumType := (give "enumType" _ (by simp)).withDefault (reads_optionalText a.enumType) none
  rw [column, type, nullable, Fields.optional, enumType]
  rfl

theorem KeyColumn.reads (k : KeyColumn) : KeyColumn.decode.Reads k.toJson k := by
  refine reads_record rfl (by decide) fun fields give => ?_
  have column := (give "column" _ (by simp)).required (reads_text k.column)
  have side := (give "atLeftSide" _ (by simp)).required (reads_flag k.atLeftSide)
  have nullable := (give "nullable" _ (by simp)).withDefault (reads_nullability k.nullable) true
  rw [column, side, nullable]
  rfl

theorem Relationship.reads (r : Relationship) : Relationship.decode.Reads r.toJson r := by
  refine reads_record rfl (by decide) fun fields give => ?_
  have target := (give "target" _ (by simp)).required (reads_text r.target)
  have kind := (give "kind" _ (by simp)).required r.kind.reads
  have foreignKey := (give "foreignKey" _ (by simp)).required r.foreignKey.reads
  have behavior := (give "deleteBehavior" _ (by simp)).withDefault r.deleteBehavior.reads .restrict
  rw [target, kind, foreignKey, behavior]
  rfl

theorem ResourceType.reads (t : ResourceType) : ResourceType.decode.Reads t.toJson t := by
  refine reads_record rfl (by decide) fun fields give => ?_
  have schema := (give "schemaName" _ (by simp)).withDefault (reads_optionalText t.schema) none
  have table := (give "tableName" _ (by simp)).required (reads_text t.table)
  have primaryKey := (give "primaryKey" _ (by simp)).required (reads_text t.primaryKey)
  have attributes := (give "columns" _ (by simp)).required
    (reads_map Attribute.reads t.attributes)
  have relationships := (give "relationships" _ (by simp)).withDefault
    (reads_map Relationship.reads t.relationships) .empty
  rw [Fields.optional, schema, table, primaryKey, attributes, relationships]
  rfl

theorem EnumType.reads (t : EnumType) : EnumType.decode.Reads t.toJson t := by
  refine reads_record rfl (by decide) fun fields give => ?_
  have members := (give "members" (.strings t.members) (by simp)).required
    (reads_list reads_text t.members)
  rw [members]
  rfl

theorem Metadata.reads (m : Metadata) : Metadata.decode.Reads m.toJson m := by
  refine reads_record rfl (by decide) fun fields give => ?_
  have resources := (give "resources" _ (by simp)).required
    (reads_map ResourceType.reads m.resources)
  have enumTypes := (give "enumTypes" _ (by simp)).withDefault
    (reads_map EnumType.reads m.enumTypes) .empty
  rw [resources, enumTypes]
  rfl

namespace Configuration

theorem reads {c : Configuration} (small : c.version < UInt32.size) :
    Configuration.decode.Reads c.toJson c := by
  refine reads_record rfl (by decide) fun fields give => ?_
  have version := (give "version" _ (by simp)).required (reads_count small)
  have dialect := (give "dialect" _ (by simp)).withDefault c.dialect.reads .postgreSql
  have metadata := (give "metadata" _ (by simp)).withDefault c.metadata.reads .empty
  rw [version, dialect, metadata]
  rfl

end Configuration

/-! ## Documents -/

variable {bound : Nat}

theorem NameMap.fits_toJson {α : Type} {f : α → Json} (each : ∀ a, (f a).Fits bound)
    (map : NameMap α) : (map.toJson f).Fits (bound + 1) := by
  refine .object fun member given => ?_
  obtain ⟨entry, -, rfl⟩ := List.mem_map.1 given
  exact each entry.2

theorem Attribute.fits_toJson (a : Attribute) : a.toJson.Fits (bound + 1) := .object (by simp)

theorem Relationship.fits_toJson (r : Relationship) : r.toJson.Fits (bound + 2) := by
  have key : r.foreignKey.toJson.Fits (bound + 1) := .object (by simp)
  exact .object (by simp [key])

theorem ResourceType.fits_toJson (t : ResourceType) : t.toJson.Fits (bound + 4) := by
  have attributes : (t.attributes.toJson Attribute.toJson).Fits (bound + 3) :=
    NameMap.fits_toJson Attribute.fits_toJson t.attributes
  have relationships : (t.relationships.toJson Relationship.toJson).Fits (bound + 3) :=
    NameMap.fits_toJson Relationship.fits_toJson t.relationships
  exact .object (by simp [attributes, relationships])

theorem EnumType.fits_toJson (t : EnumType) : t.toJson.Fits (bound + 2) := by
  have members : (Json.strings t.members).Fits (bound + 1) := .array (by simp)
  exact .object (by simp [members])

theorem Metadata.fits_toJson (m : Metadata) : m.toJson.Fits (bound + 6) := by
  have resources : (m.resources.toJson ResourceType.toJson).Fits (bound + 5) :=
    NameMap.fits_toJson ResourceType.fits_toJson m.resources
  have enumTypes : (m.enumTypes.toJson EnumType.toJson).Fits (bound + 5) :=
    NameMap.fits_toJson EnumType.fits_toJson m.enumTypes
  exact .object (by simp [resources, enumTypes])

namespace Configuration

theorem fits_toJson {c : Configuration} (small : c.version < UInt32.size) :
    c.toJson.Fits (bound + 7) := by
  have version : (Json.ofNat c.version).Fits (bound + 6) := by
    refine ⟨?_, Nat.zero_le _⟩
    have lower : -Int.pow 2 63 ≤ 0 := by decide
    have upper : (UInt32.size : Int) ≤ Int.pow 2 64 := by decide
    simp only [Json.ofNat, Json.isIntegral, Bool.and_eq_true, decide_eq_true_eq]
    omega
  exact .object (by simp [version, c.metadata.fits_toJson])

/-- The text of a configuration is decoded as that configuration. -/
theorem decode_toText {c : Configuration} (small : c.version < UInt32.size) :
    decode.ofText c.toText = .ok c := by
  have fits : c.toJson.Fits (120 + 7) := c.fits_toJson small
  obtain ⟨o, read, shown⟩ := Document.read_pretty fits
  rw [Decoder.ofText, toText, read]
  exact congrArg (Decoded.withFault · none) (c.reads small o shown)

theorem ofText_toText {c : Configuration} (current : c.version = currentVersion) :
    ofText c.toText = .ok c := by
  have small : c.version < UInt32.size := by rw [current]; decide
  rw [ofText, decode_toText small]
  exact if_pos current

end Configuration

end ResourceSql
