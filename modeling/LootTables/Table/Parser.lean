import LootTables.Table.Decode

/-!
# Parsers

A parser is used for one document after another, whatever became of those before. All that it keeps
is the name of the table at hand, and it sets this name before anything else; so what it makes of a
document does not depend on where it was before (`Parser.parse_eq`).
-/

namespace LootTables

/-- A parser, with the name of the table that it is at. -/
structure Parser where
  table : Text := ""

namespace Parser

/-- The error for a defect, in the name of the table that the parser is at. -/
def error (p : Parser) (d : Defect) : DecodeError := { d with table := p.table }

/-- Decodes a document under a name, and keeps this name also when the document is refused. -/
def parse (p : Parser) (v : Json) (name : Text) : Parser × Except DecodeError LootTable :=
  let p := { p with table := name }
  match decodePools v with
  | .ok pools => (p, .ok ⟨name, pools⟩)
  | .error d => (p, .error (p.error d))

/-- Whatever the parser was at before makes no difference. -/
theorem parse_eq (p : Parser) (v : Json) (name : Text) : p.parse v name = (⟨name⟩, v.toTable name) := by
  unfold parse Json.toTable
  cases decodePools v <;> rfl

end Parser

end LootTables
