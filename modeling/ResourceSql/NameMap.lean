/-
Maps from names to values, kept as a list in the order of the names. The order
is by code point, which is also the byte order of the names in UTF-8, so that
walking a map visits the names in the order in which they are compared as
bytes. A map holds each name once: entering a name again replaces its value.
-/

namespace ResourceSql

/-- Entries in strictly ascending order of their names. -/
structure NameMap (α : Type) where
  entries : List (String × α)
  ascending : entries.Pairwise (·.1 < ·.1)

namespace NameMap

variable {α β : Type}

instance [DecidableEq α] : DecidableEq (NameMap α) := fun a b =>
  if h : a.entries = b.entries then
    isTrue (by cases a; cases b; simp_all)
  else
    isFalse fun e => h (e ▸ rfl)

def empty : NameMap α := ⟨[], .nil⟩

instance : Inhabited (NameMap α) := ⟨empty⟩

/-- Entering a name into ascending entries: in its place, or over the value it had. -/
def insertEntry (name : String) (value : α) : List (String × α) → List (String × α)
  | [] => [(name, value)]
  | (other, held) :: rest =>
    if name < other then (name, value) :: (other, held) :: rest
    else if name = other then (name, value) :: rest
    else (other, held) :: insertEntry name value rest

theorem mem_insertEntry {name : String} {value : α} {entry : String × α}
    {entries : List (String × α)} (h : entry ∈ insertEntry name value entries) :
    entry = (name, value) ∨ entry ∈ entries := by
  induction entries with
  | nil => exact .inl (by simpa [insertEntry] using h)
  | cons head rest ih =>
    obtain ⟨other, held⟩ := head
    unfold insertEntry at h
    split at h
    · rcases List.mem_cons.1 h with rfl | h
      · exact .inl rfl
      · exact .inr h
    · split at h
      · rcases List.mem_cons.1 h with rfl | h
        · exact .inl rfl
        · exact .inr (List.mem_cons_of_mem _ h)
      · rcases List.mem_cons.1 h with rfl | h
        · exact .inr (List.mem_cons_self ..)
        · exact (ih h).imp_right (List.mem_cons_of_mem _)

theorem insertEntry_ascending (name : String) (value : α) {entries : List (String × α)}
    (h : entries.Pairwise (·.1 < ·.1)) :
    (insertEntry name value entries).Pairwise (·.1 < ·.1) := by
  induction entries with
  | nil => exact List.pairwise_singleton _ _
  | cons head rest ih =>
    obtain ⟨other, held⟩ := head
    obtain ⟨above, tail⟩ := List.pairwise_cons.1 h
    unfold insertEntry
    split
    · rename_i before
      refine List.pairwise_cons.2 ⟨fun entry member => ?_, h⟩
      rcases List.mem_cons.1 member with rfl | member
      · exact before
      · exact String.lt_trans before (above entry member)
    · split
      · rename_i same
        exact List.pairwise_cons.2 ⟨fun entry member => same ▸ above entry member, tail⟩
      · rename_i notBefore notSame
        refine List.pairwise_cons.2 ⟨fun entry member => ?_, ih tail⟩
        rcases mem_insertEntry member with rfl | member
        · exact Decidable.byContradiction fun notAfter =>
            notSame (String.le_antisymm (String.not_lt.1 notAfter) (String.not_lt.1 notBefore))
        · exact above entry member

def insert (map : NameMap α) (name : String) (value : α) : NameMap α :=
  ⟨insertEntry name value map.entries, insertEntry_ascending name value map.ascending⟩

/-- Of several values for one name the last one counts. -/
def ofList (entries : List (String × α)) : NameMap α :=
  entries.foldl (fun map entry => map.insert entry.1 entry.2) empty

def toList (map : NameMap α) : List (String × α) := map.entries

def get? (map : NameMap α) (name : String) : Option α := map.entries.lookup name

def contains (map : NameMap α) (name : String) : Bool := (map.get? name).isSome

def names (map : NameMap α) : List String := map.entries.map (·.1)

def values (map : NameMap α) : List α := map.entries.map (·.2)

def size (map : NameMap α) : Nat := map.entries.length

@[simp] theorem get?_empty (name : String) : (empty : NameMap α).get? name = none := rfl

/-- A name is found exactly with the value it was entered with. -/
theorem mem_of_get? {map : NameMap α} {name : String} {value : α}
    (h : map.get? name = some value) : (name, value) ∈ map.toList := by
  unfold get? at h
  unfold toList
  generalize map.entries = entries at h
  induction entries with
  | nil => simp at h
  | cons head rest ih =>
    obtain ⟨other, held⟩ := head
    rw [List.lookup_cons] at h
    split at h
    · rename_i same
      obtain rfl : name = other := by simpa using same
      simp_all
    · exact List.mem_cons_of_mem _ (ih h)

/-- Each name has one value. -/
theorem get?_of_mem {map : NameMap α} {name : String} {value : α}
    (h : (name, value) ∈ map.toList) : map.get? name = some value := by
  unfold get?
  unfold toList at h
  have ascending := map.ascending
  generalize map.entries = entries at h ascending
  induction entries with
  | nil => cases h
  | cons head rest ih =>
    obtain ⟨other, held⟩ := head
    obtain ⟨above, tail⟩ := List.pairwise_cons.1 ascending
    rw [List.lookup_cons]
    rcases List.mem_cons.1 h with same | member
    · cases same
      simp
    · have different : name ≠ other := by
        intro same
        have before : other < name := above (name, value) member
        rw [same] at before
        exact String.lt_irrefl _ before
      rw [beq_eq_false_iff_ne.2 different]
      exact ih member tail

end NameMap

end ResourceSql
