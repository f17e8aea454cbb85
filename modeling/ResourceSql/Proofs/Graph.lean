/-
Filters read directly on the graph of resources: rows, and the relationships
between them. A field path leads along to-one relationships from a row to the
value of an attribute; where a relationship finds no row, the value is null.
Counts and `has` look at the rows that belong to a row.
-/
import ResourceSql.Proofs.Evaluation
import ResourceSql.Proofs.Resolution

namespace ResourceSql

/-- The rows that store resources of a type. -/
def Database.rowsOf (db : Database) (r : Resource) : List Row := db.rows r.type.schema r.type.table

/-- The rows of the target that belong to a row. -/
def Link.rows (g : Engine) (db : Database) (l : Link) (row : Row) : List Row :=
  (db.rowsOf l.target).filter fun other =>
    g.compare .equals (row l.outer) (other l.inner) = .true

/-- A relationship that a type of resources declares, as it is followed. -/
structure Metadata.Declares (m : Metadata) (here : Resource) (relationship : String) (l : Link) :
    Prop where
  found : m.findResource here.name = .ok here
  key : ForeignKey.resolve m here relationship = .ok l.key
  link : m.link here l.key = .ok l

/-- A database that keeps what metadata say: primary keys identify rows, a to-one relationship has
at most one related row, and a required foreign key at the left side finds its row. -/
structure Database.Honours (g : Engine) (m : Metadata) (db : Database) : Prop where
  unique : ∀ {name r a}, m.findResource name = .ok r → r.primaryKey = .ok a →
    ((db.rowsOf r).map fun row => row a.column).Nodup
  notNull : ∀ {name r a row}, m.findResource name = .ok r → r.primaryKey = .ok a →
    row ∈ db.rowsOf r → (row a.column).isNull = false
  single : ∀ {here relationship l row}, m.Declares here relationship l → l.key.isToOne = true →
    row ∈ db.rowsOf here → (l.rows g db row).length ≤ 1
  complete : ∀ {here relationship l row}, m.Declares here relationship l →
    l.key.atLeftSide = true → l.key.nullable = false → row ∈ db.rowsOf here →
    l.rows g db row ≠ []

namespace Graph

variable (g : Engine) (db : Database) (c : Context)

/-- The row at the end of a path of to-one relationships, and its type. -/
def reach : Resource → Row → List String → Option (Resource × Row)
  | here, row, [] => some (here, row)
  | here, row, relationship :: rest =>
    match c.metadata.hop false here relationship with
    | .error _ => none
    | .ok link =>
      match (link.rows g db row).head? with
      | none => none
      | some next => reach link.target next rest

/-- The value of the attribute that identifies a resource. -/
def keyValue (here : Resource) (row : Row) : Value :=
  match here.primaryKey with
  | .error _ => .null
  | .ok primaryKey => row primaryKey.column

/-- The value of a field. A to-one relationship at the end of the path stands for the primary key
of the related resource. -/
def fieldValue (root : Resource) (row : Row) (path : List String) : Value :=
  match path.getLast? with
  | none => .null
  | some name =>
    match reach g db c root row path.dropLast with
    | none => .null
    | some (here, found) =>
      match here.type.attributes.get? name with
      | some held => found held.column
      | none =>
        match reach g db c here found [name] with
        | none => .null
        | some (target, related) => keyValue target related

/-- The rows in the to-many relationship at the end of a path. -/
def related (root : Resource) (row : Row) (path : List String) : List (Resource × Row) :=
  match path.getLast? with
  | none => []
  | some relationship =>
    match reach g db c root row path.dropLast with
    | none => []
    | some (here, found) =>
      match ForeignKey.resolve c.metadata here relationship with
      | .error _ => []
      | .ok key =>
        match c.metadata.link here key with
        | .error _ => []
        | .ok link => (link.rows g db found).map (link.target, ·)

/-! ## Comparisons -/

/-- The attribute that a side of a comparison is, if it is one. -/
def attribute? (root : Resource) : Request.Operand → Option Attribute
  | .field path => (c.metadata.fieldOf root path).toOption
  | _ => none

/-- The attribute that values of a comparison belong to: the left side if that is a field, else the
right side. Without a field, values are compared with counts. -/
def typing (root : Resource) (left right : Request.Operand) : Option Attribute :=
  attribute? c root left <|> attribute? c root right

def isNull : Request.Operand → Bool
  | .value .null | .null => true
  | _ => false

def operandValue (root : Resource) (row : Row) (typing : Option Attribute) :
    Request.Operand → Value
  | .field path => fieldValue g db c root row path
  | .count path => g.number (related g db c root row path).length
  | .value v => (Known.literal c.metadata typing v).toOption.getD .null
  | .null => .null

/-- To be equal to null is to be null. -/
def compared (root : Resource) (row : Row) (operator : Comparison) (left right : Request.Operand) :
    Truth :=
  let typing := typing c root left right
  let a := operandValue g db c root row typing left
  let b := operandValue g db c root row typing right
  if operator = .equals ∧ isNull right then .ofBool a.isNull
  else if operator = .equals ∧ isNull left then .ofBool b.isNull
  else g.compare operator a b

/-- The values that JSON values stand for beside a field. -/
def listed (root : Resource) (path : List String) (values : List Json) : List Value :=
  let held := (c.metadata.fieldOf root path).toOption
  values.map fun v => (Known.literal c.metadata held v).toOption.getD .null

/-! ## Filters -/

mutual

/-- The truth of a filter for a row. -/
def meaning : Resource → Request.Filter → Row → Truth
  | root, .and terms, row => .all (meanings root terms row)
  | root, .or terms, row => .any (meanings root terms row)
  | root, .not filter, row => (meaning root filter row).not
  | root, .comparison operator left right, row => compared g db c root row operator left right
  | root, .textMatch place path text, row =>
    g.like (fieldValue g db c root row path) (.text (c.dialect.pattern place text))
  | root, .any path values, row =>
    g.among (fieldValue g db c root row path) (listed c root path values)
  | root, .has path filter, row =>
    .ofBool ((related g db c root row path).any fun found =>
      optionalMeaning found.1 filter found.2 = .true)

def optionalMeaning : Resource → Option Request.Filter → Row → Truth
  | _, none, _ => .true
  | root, some filter, row => meaning root filter row

def meanings : Resource → List Request.Filter → Row → List Truth
  | _, [], _ => []
  | root, filter :: filters, row => meaning root filter row :: meanings root filters row

end

end Graph

/-! ## The columns of resources -/

namespace Resource

/-- A column that the table of the resources holds for them: that of an attribute, or of a foreign
key at the left side. -/
def Holds (r : Resource) (column : String) : Prop :=
  (∃ name a, r.type.attributes.get? name = some a ∧ a.column = column) ∨
    ∃ name d, r.type.relationships.get? name = some d ∧ d.foreignKey.atLeftSide = true ∧
      d.foreignKey.column = column

/-- A row shows another one if it has the same values in the columns held for a resource. -/
def Shows (r : Resource) (seen row : Row) : Prop := ∀ column, r.Holds column → seen column = row column

theorem Shows.refl (r : Resource) (row : Row) : r.Shows row row := fun _ _ => rfl

theorem findAttribute_eq_ok {r : Resource} {name : String} {a : Attribute} :
    r.findAttribute name = .ok a ↔ r.type.attributes.get? name = some a := by
  unfold findAttribute
  cases r.type.attributes.get? name with
  | some found => simp
  | none => simp

theorem attribute_of_primaryKey {r : Resource} {a : Attribute} (h : r.primaryKey = .ok a) :
    r.type.attributes.get? r.type.primaryKey = some a := findAttribute_eq_ok.1 h

theorem holds_of_primaryKey {r : Resource} {a : Attribute} (h : r.primaryKey = .ok a) :
    r.Holds a.column :=
  .inl ⟨_, a, attribute_of_primaryKey h, rfl⟩

end Resource

/-! ## Links -/

theorem Except.bind_eq_ok {ε α β : Type} {x : Except ε α} {f : α → Except ε β} {b : β} :
    (x >>= f) = .ok b ↔ ∃ a, x = .ok a ∧ f a = .ok b := by
  constructor
  · intro h
    cases x with
    | ok a => exact ⟨a, rfl, h⟩
    | error e => cases h
  · rintro ⟨a, rfl, h⟩
    exact h

/-- A check before something else. -/
theorem Except.check_bind_eq_ok {ε β : Type} {check : Except ε Unit} {x : Except ε β} {b : β} :
    (check >>= fun _ => x) = .ok b ↔ check = .ok () ∧ x = .ok b := by
  cases check with
  | ok a => simp [bind, Except.bind]
  | error e => simp [bind, Except.bind]

theorem Resource.findRelationship_eq_ok {r : Resource} {name : String} {d : Relationship} :
    r.findRelationship name = .ok d ↔ r.type.relationships.get? name = some d := by
  unfold findRelationship
  cases r.type.relationships.get? name with
  | some found => simp
  | none => simp

/-- A foreign key is that of a declared relationship whose target is known. -/
theorem ForeignKey.resolve_eq_ok {m : Metadata} {here : Resource} {relationship : String}
    {key : ForeignKey} : resolve m here relationship = .ok key ↔
      ∃ d target, here.type.relationships.get? relationship = some d ∧
        m.findResource d.target = .ok target ∧
        key = ⟨here.name, relationship, target.name, d.kind,
          (if d.foreignKey.atLeftSide then here else target).type.table, d.foreignKey.column,
          d.foreignKey.atLeftSide, d.foreignKey.nullable⟩ := by
  simp only [resolve, Except.bind_eq_ok, Resource.findRelationship_eq_ok]
  constructor
  · rintro ⟨d, declared, target, found, key⟩
    exact ⟨d, target, declared, found, (Except.ok.inj key).symm⟩
  · rintro ⟨d, target, declared, found, rfl⟩
    exact ⟨d, declared, target, found, rfl⟩

theorem Metadata.findResource_name {m : Metadata} {name : String} {r : Resource}
    (h : m.findResource name = .ok r) : r.name = name := by
  simp only [findResource] at h
  split at h
  · cases h; rfl
  · cases h

theorem Metadata.findResource_self {m : Metadata} {name : String} {r : Resource}
    (h : m.findResource name = .ok r) : m.findResource r.name = .ok r := by
  rw [findResource_name h, h]

namespace Metadata.Declares

variable {m : Metadata} {here : Resource} {relationship : String} {l : Link}

/-- The two columns of a link, by the side that its key lies at. -/
theorem columns (h : m.Declares here relationship l) :
    m.findResource l.key.target = .ok l.target ∧
      ((l.key.atLeftSide = true ∧ l.outer = l.key.column ∧
          ∃ a, l.target.primaryKey = .ok a ∧ l.inner = a.column) ∨
        (l.key.atLeftSide = false ∧ l.inner = l.key.column ∧
          ∃ a, here.primaryKey = .ok a ∧ l.outer = a.column)) := by
  have link := h.link
  simp only [Metadata.link, Except.bind_eq_ok] at link
  obtain ⟨target, found, link⟩ := link
  split at link
  · next left =>
    obtain ⟨a, primaryKey, same⟩ := Except.bind_eq_ok.1 link
    have same : (⟨l.key, target, l.key.column, a.column⟩ : Link) = l := by injection same
    have target : target = l.target := congrArg Link.target same
    exact ⟨target ▸ found, .inl ⟨left, (congrArg Link.outer same).symm, a, target ▸ primaryKey,
      (congrArg Link.inner same).symm⟩⟩
  · next right =>
    obtain ⟨a, primaryKey, same⟩ := Except.bind_eq_ok.1 link
    have same : (⟨l.key, target, a.column, l.key.column⟩ : Link) = l := by injection same
    exact ⟨congrArg Link.target same ▸ found, .inr ⟨by simpa using right,
      (congrArg Link.inner same).symm, a, primaryKey, (congrArg Link.outer same).symm⟩⟩

theorem target_found (h : m.Declares here relationship l) :
    m.findResource l.target.name = .ok l.target :=
  findResource_self h.columns.1

/-- A link starts from a column that is held for the declaring type. -/
theorem holds_outer (h : m.Declares here relationship l) : here.Holds l.outer := by
  obtain ⟨-, ⟨left, outer, -⟩ | ⟨-, -, a, primaryKey, outer⟩⟩ := h.columns
  · obtain ⟨d, target, declared, -, key⟩ := ForeignKey.resolve_eq_ok.1 h.key
    rw [key] at left outer
    exact .inr ⟨relationship, d, declared, left, outer.symm⟩
  · rw [outer]
    exact Resource.holds_of_primaryKey primaryKey

end Metadata.Declares

/-! ## Hops and paths -/

namespace Metadata

variable {m : Metadata} {here : Resource} {relationship : String} {l : Link}

theorem key_of_link {key : ForeignKey} (h : m.link here key = .ok l) : l.key = key := by
  simp only [link, Except.bind_eq_ok] at h
  obtain ⟨_, -, h⟩ := h
  split at h
  · obtain ⟨_, -, h⟩ := Except.bind_eq_ok.1 h
    cases h
    rfl
  · obtain ⟨_, -, h⟩ := Except.bind_eq_ok.1 h
    cases h
    rfl

theorem link_eq_error {key : ForeignKey} {e : RequestError}
    (missing : m.findResource key.target = .error e) : m.link here key = .error e := by
  rw [link, missing]
  rfl

theorem target_of_link {key : ForeignKey} {target : Resource}
    (found : m.findResource key.target = .ok target) (h : m.link here key = .ok l) :
    l.target = target := by
  simp only [link, found, Except.bind_eq_ok] at h
  obtain ⟨_, same, h⟩ := h
  cases same
  split at h
  · obtain ⟨_, -, h⟩ := Except.bind_eq_ok.1 h
    cases h
    rfl
  · obtain ⟨_, -, h⟩ := Except.bind_eq_ok.1 h
    cases h
    rfl

theorem declares_of_link {key : ForeignKey} (found : m.findResource here.name = .ok here)
    (resolved : ForeignKey.resolve m here relationship = .ok key)
    (linked : m.link here key = .ok l) : m.Declares here relationship l := by
  obtain rfl := key_of_link linked
  exact ⟨found, resolved, linked⟩

/-- When its foreign key is found, a relationship is refused for its kind alone, or its link decides. -/
theorem hop_of_resolve {toMany : Bool} {key : ForeignKey}
    (resolved : ForeignKey.resolve m here relationship = .ok key) :
    m.hop toMany here relationship =
      if (!toMany && !key.isToOne) = true then .error key.toOneError else m.link here key := by
  rw [hop, resolved]
  rfl

theorem hop_eq_ok_iff {toMany : Bool} (found : m.findResource here.name = .ok here) :
    m.hop toMany here relationship = .ok l ↔
      m.Declares here relationship l ∧ (toMany = true ∨ l.key.isToOne = true) := by
  constructor
  · intro h
    obtain ⟨key, resolved, h⟩ := Except.bind_eq_ok.1 h
    split at h
    · obtain ⟨_, thrown, -⟩ := Except.bind_eq_ok.1 h
      cases thrown
    · next allowed =>
      have linked : m.link here key = .ok l := h
      have declared := declares_of_link found resolved linked
      rw [← key_of_link linked] at allowed
      refine ⟨declared, ?_⟩
      cases toMany <;> simp_all
  · rintro ⟨declared, allowed⟩
    refine Except.bind_eq_ok.2 ⟨l.key, declared.key, ?_⟩
    have : ¬ ((!toMany && !l.key.isToOne) = true) := by
      rcases allowed with h | h <;> simp [h]
    rw [if_neg this]
    exact declared.link

theorem walk_append (m : Metadata) (toMany : Bool) (here : Resource) (first second : List String) :
    m.walk toMany here (first ++ second) =
      m.walk toMany here first >>= fun there => m.walk toMany there second := by
  induction first generalizing here with
  | nil => rfl
  | cons relationship first ih =>
    simp only [List.cons_append, walk]
    cases m.hop toMany here relationship with
    | error e => rfl
    | ok l => exact ih l.target

theorem walk_singleton {toMany : Bool} (h : m.hop toMany here relationship = .ok l) :
    m.walk toMany here [relationship] = .ok l.target := by
  simp only [walk, h]
  rfl

theorem leadsToMany_cons (declared : m.Declares here relationship l) (path : List String) :
    m.leadsToMany here (relationship :: path) =
      (!l.key.isToOne || m.leadsToMany l.target path) := by
  simp only [leadsToMany, declared.key, declared.columns.1]

theorem leadsToMany_append {there : Resource} {first : List String}
    (found : m.findResource here.name = .ok here) (h : m.walk true here first = .ok there)
    (second : List String) :
    m.leadsToMany here (first ++ second) =
      (m.leadsToMany here first || m.leadsToMany there second) := by
  induction first generalizing here with
  | nil => cases h; rfl
  | cons relationship first ih =>
    obtain ⟨l, hopped, h⟩ := Except.bind_eq_ok.1 h
    have declared := ((hop_eq_ok_iff found).1 hopped).1
    rw [List.cons_append, leadsToMany_cons declared, leadsToMany_cons declared,
      ih declared.target_found h, Bool.or_assoc]

/-- A walk along to-one relationships meets no to-many relationship. -/
theorem leadsToMany_of_walk {there : Resource} {path : List String}
    (found : m.findResource here.name = .ok here) (h : m.walk false here path = .ok there) :
    m.leadsToMany here path = false := by
  induction path generalizing here with
  | nil => rfl
  | cons relationship path ih =>
    obtain ⟨l, hopped, h⟩ := Except.bind_eq_ok.1 h
    have ⟨declared, toOne⟩ := (hop_eq_ok_iff found).1 hopped
    rw [leadsToMany_cons declared, ih declared.target_found h]
    simpa using toOne

end Metadata

/-- The rows of a link depend on what is shown of a row only. -/
theorem Link.rows_of_shows {g : Engine} {db : Database} {m : Metadata} {here : Resource}
    {relationship : String} {l : Link} {seen row : Row} (declared : m.Declares here relationship l)
    (shows : here.Shows seen row) : l.rows g db seen = l.rows g db row := by
  simp only [rows, shows _ declared.holds_outer]

/-- No row belongs to a missing one. -/
theorem Link.rows_null {g : Engine} {db : Database} (l : Link) : l.rows g db Row.null = [] := by
  simp [rows, Row.null, Engine.compare, Value.isNull]

namespace Graph

variable {g : Engine} {db : Database} {c : Context}

theorem reach_append (here : Resource) (row : Row) (first second : List String) :
    reach g db c here row (first ++ second) =
      (reach g db c here row first).bind fun found =>
        reach g db c found.1 found.2 second := by
  induction first generalizing here row with
  | nil => rfl
  | cons relationship first ih =>
    simp only [List.cons_append, reach]
    split
    · rfl
    · split
      · rfl
      · exact ih _ _

theorem reach_singleton {here : Resource} {row : Row} {relationship : String} {l : Link}
    (h : c.metadata.hop false here relationship = .ok l) :
    reach g db c here row [relationship] = (l.rows g db row).head?.map (l.target, ·) := by
  simp only [reach, h]
  cases (l.rows g db row).head? <;> rfl

end Graph

end ResourceSql
