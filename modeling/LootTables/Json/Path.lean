import LootTables.Json.Value

/-!
# Paths into a JSON value

A path leads from a value to one of its parts, a field name or an item index at a time.
`Json.at?` follows a path, and `pathText` writes it with `#` for the value it starts from.
-/

namespace LootTables

/-- One step of a path. -/
inductive PathStep where
  | field (name : Text)
  | item (index : Nat)
deriving DecidableEq

/-- A path, outermost step first. -/
abbrev JsonPath := List PathStep

/-- A step as it is written: after a slash, the name as it is or the index in decimal. -/
def PathStep.text : PathStep → Text
  | .field name => "/" ++ name
  | .item index => "/" ++ Text.ofNat index

/-- The text of a path. -/
def pathText (path : JsonPath) : Text := "#" ++ path.flatMap PathStep.text

/-- The part of a value to which a step leads. -/
def Json.child? : Json → PathStep → Option Json
  | .object fields, .field name => fields.lookup name
  | .array items, .item index => items[index]?
  | _, _ => none

/-- The part of a value to which a path leads. -/
def Json.at? (v : Json) : JsonPath → Option Json
  | [] => some v
  | step :: path => (v.child? step).bind (·.at? path)

end LootTables
