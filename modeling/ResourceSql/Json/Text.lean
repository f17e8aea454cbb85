/-
Making values of whole texts.
-/
import ResourceSql.Json.Decoding
import ResourceSql.Json.Reader

namespace ResourceSql

/-- Reads a text that holds one value, and nothing behind it. -/
def Decoder.ofText {α : Type} (item : Decoder α) (text : String) : Decoded α :=
  let document := Document.read text
  (item document.root).withFault document.trailing

end ResourceSql
