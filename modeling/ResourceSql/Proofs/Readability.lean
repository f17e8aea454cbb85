/-
Texts are unambiguous. Two regular conditions have one text just if they are the
same as far as a text carries them (`Condition.statement_eq_iff`): the grammar
reads the text in one way only, and what a text does not carry is not written.
-/
import ResourceSql.Proofs.Reading
import ResourceSql.Proofs.Visible

namespace ResourceSql

namespace Sql

/-- What a text does not carry is not written. -/
theorem Condition.textOf_visible (d : Dialect) (c : Condition) :
    textOf d ((c.visible d).fragments d) = textOf d (c.fragments d) := by
  rw [Condition.fragments_visible, textOf_visibleFragments]

theorem statement_eq_iff_textOf (d : Dialect) (c c' : Condition) :
    ((Node.condition c).command d).statement = ((Node.condition c').command d).statement ↔
      textOf d (c.fragments d) = textOf d (c'.fragments d) := by
  show String.ofList _ = String.ofList _ ↔ _
  rw [← String.toList_inj, String.toList_ofList, String.toList_ofList]
  rfl

theorem Condition.visible_of_textOf {d : Dialect} {c c' : Condition} (regular : c.isRegular = true)
    (regular' : c'.isRegular = true) (same : textOf d (c.fragments d) = textOf d (c'.fragments d)) :
    c.visible d = c'.visible d := by
  have first := (readers_good d (sizeOf c + sizeOf c')).condition c (by omega) regular [] (.inl rfl)
  have second := (readers_good d (sizeOf c + sizeOf c')).condition c' (by omega) regular' [] (.inl rfl)
  rw [same] at first
  have both := first.symm.trans second
  exact congrArg Prod.fst (Option.some.inj both)

/-- **Rendering is unambiguous.** Two conditions with regular names have one text just if they
agree on everything that a text carries. -/
theorem Condition.statement_eq_iff (d : Dialect) {c c' : Condition} (regular : c.isRegular = true)
    (regular' : c'.isRegular = true) :
    ((Node.condition c).command d).statement = ((Node.condition c').command d).statement ↔
      c.visible d = c'.visible d := by
  rw [statement_eq_iff_textOf]
  constructor
  · exact visible_of_textOf regular regular'
  · intro same
    rw [← Condition.textOf_visible d c, ← Condition.textOf_visible d c', same]

namespace Sample

/-- Some page of a table, with what stands before the test for it. -/
def pageExists (tested : Condition) (window : Window) (aliasName : Option String) : Condition :=
  .logical .and tested
    (.exists { Select.simple (.table ⟨none, "page", some "t1"⟩) .one with window, aliasName }) []

def unshelved : Condition :=
  pageExists (.comparison .equals .null (.column (.ofTable ⟨"shelf] = (NULL)", .scalar, some "t0"⟩)))
    ⟨some 5, none⟩ (some "t2")

def unshelvedToo : Condition :=
  pageExists
    (.comparison .equals (.column (.ofSelect ⟨⟨"shelf] = (NULL)", .foreignKey, none⟩, "t0"⟩)) .null)
    ⟨some 5, some 0⟩ none

end Sample

theorem Condition.statement_eq_iff_unshelved :
    Sample.unshelved.isRegular = true ∧ Sample.unshelvedToo.isRegular = true ∧
      Sample.unshelved.visible .sqlServer = Sample.unshelvedToo.visible .sqlServer :=
  ⟨rfl, rfl, (statement_eq_iff .sqlServer rfl rfl).1 rfl⟩

end Sql

end ResourceSql
