/-
What metadata that pass the check provide: each resource has its primary key, each
attribute its enum type, and each relationship a target, and a key that can be
cleared if it has to be.
-/
import ResourceSql.Configuration.Consistency
import ResourceSql.Proofs.Graph

namespace ResourceSql

theorem NameMap.exists_of_contains {α : Type} {map : NameMap α} {name : String}
    (h : map.contains name = true) : ∃ value, map.get? name = some value := by
  unfold contains at h
  exact Option.isSome_iff_exists.1 h

namespace Metadata

variable {m : Metadata} {r : Resource} {name : String}

theorem checkEach_eq_ok {α : Type} {check : α → Except Inconsistency Unit} {as : List α} :
    checkEach check as = .ok () ↔ ∀ a ∈ as, check a = .ok () := by
  induction as with
  | nil => simp [checkEach]
  | cons a as ih =>
    rw [checkEach, Except.check_bind_eq_ok, List.forall_mem_cons, ih]

theorem checkRelationship_eq_ok {resource : String} {d : Relationship} :
    m.checkRelationship resource name d = .ok () ↔
      m.resources.contains d.target = true ∧
        (d.kind = .toMany → d.foreignKey.atLeftSide = false) ∧
        (d.deleteBehavior = .setNull → d.foreignKey.nullable = true) := by
  unfold checkRelationship
  by_cases known : m.resources.contains d.target = true
  · by_cases misplaced : d.kind = .toMany ∧ d.foreignKey.atLeftSide = true
    · simp [known, misplaced]
    · have placed : d.kind = .toMany → d.foreignKey.atLeftSide = false := by simpa using misplaced
      simp only [known, misplaced, not_true_eq_false, if_false, true_and]
      rw [and_iff_right placed]
      simp
  · simp [known]

/-- Each resource of metadata that pass the check passes it. -/
theorem checkResource_of_check (checked : m.check = .ok ()) (found : m.findResource name = .ok r) :
    m.checkResource name r.type = .ok () := by
  unfold findResource at found
  split at found
  · next looked =>
    cases found
    exact checkEach_eq_ok.1 checked _ (NameMap.mem_of_get? looked)
  · cases found

theorem checkRelationship_of_check (checked : m.check = .ok ())
    (found : m.findResource r.name = .ok r) {relationship : String} {d : Relationship}
    (declared : (relationship, d) ∈ r.type.relationships.toList) :
    m.checkRelationship r.name relationship d = .ok () := by
  have passed := checkResource_of_check checked found
  simp only [checkResource] at passed
  split at passed
  · cases passed
  · obtain ⟨_, -, passed⟩ := Except.bind_eq_ok.1 passed
    exact checkEach_eq_ok.1 passed _ declared

/-- A relationship of metadata that pass the check leads to a resource. -/
theorem target_of_check (checked : m.check = .ok ()) (found : m.findResource r.name = .ok r)
    {relationship : String} {d : Relationship}
    (declared : (relationship, d) ∈ r.type.relationships.toList) :
    ∃ target, m.findResource d.target = .ok target := by
  obtain ⟨known, -, -⟩ :=
    checkRelationship_eq_ok.1 (checkRelationship_of_check checked found declared)
  obtain ⟨type, looked⟩ := NameMap.exists_of_contains known
  exact ⟨⟨d.target, type⟩, by simp [findResource, looked]⟩

/-- The enum type of an attribute is declared, if there has to be one. -/
def Types (m : Metadata) (a : Attribute) : Prop :=
  ∃ resource name, m.checkAttribute resource name a = .ok ()

theorem types_of_check (checked : m.check = .ok ()) (found : m.findResource r.name = .ok r)
    {name : String} {a : Attribute} (declared : r.type.attributes.get? name = some a) : m.Types a := by
  have passed := checkResource_of_check checked found
  simp only [checkResource] at passed
  split at passed
  · cases passed
  · obtain ⟨_, passed, -⟩ := Except.bind_eq_ok.1 passed
    exact ⟨r.name, name, checkEach_eq_ok.1 passed _ (NameMap.mem_of_get? declared)⟩

theorem primaryKey_of_check (checked : m.check = .ok ()) (found : m.findResource r.name = .ok r) :
    ∃ a, r.primaryKey = .ok a ∧ m.Types a := by
  have passed := checkResource_of_check checked found
  simp only [checkResource] at passed
  split at passed
  · cases passed
  · next declared =>
    obtain ⟨a, held⟩ := NameMap.exists_of_contains (Decidable.not_not.1 declared)
    refine ⟨a, ?_, types_of_check checked found held⟩
    simp [Resource.primaryKey, Resource.findAttribute, held]

end Metadata

/-- The columns of a join are known where both resources have a primary key. -/
theorem Compile.joinColumns_of_check {m : Metadata} (checked : m.check = .ok ())
    {parent target : Resource} (parented : m.findResource parent.name = .ok parent)
    (targeted : m.findResource target.name = .ok target) (here : Occurrence) (key : ForeignKey)
    (table : Sql.Table) : ∃ columns, joinColumns parent here key target table = .ok columns := by
  obtain ⟨a, identified, -⟩ := Metadata.primaryKey_of_check checked parented
  obtain ⟨b, identified', -⟩ := Metadata.primaryKey_of_check checked targeted
  unfold joinColumns
  split
  · rw [identified']
    exact ⟨_, rfl⟩
  · rw [identified]
    exact ⟨_, rfl⟩

/-- There is a link for every foreign key. -/
theorem Metadata.link_of_check {m : Metadata} (checked : m.check = .ok ()) {parent target : Resource}
    {key : ForeignKey} (parented : m.findResource parent.name = .ok parent)
    (named : m.findResource key.target = .ok target) : ∃ l, m.link parent key = .ok l := by
  obtain ⟨a, identified, -⟩ := primaryKey_of_check checked parented
  obtain ⟨b, identified', -⟩ := primaryKey_of_check checked (findResource_self named)
  rw [link, named]
  show ∃ l, (if key.atLeftSide = true then _ else _ : Except RequestError Link) = .ok l
  split
  · rw [identified']
    exact ⟨_, rfl⟩
  · rw [identified]
    exact ⟨_, rfl⟩

end ResourceSql
