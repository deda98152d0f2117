import LootTables.Json.Value
import LootTables.Text.Quoted

/-!
# Values as settings

A setting may hold any JSON value. Where a text is wanted, `Json.text` writes the value: a string
as it is, every other value in its shown form, in which strings are quoted (`Json.shown`). Where a
yes or no is wanted, empty and zero values mean no (`Json.isYes`).
-/

namespace LootTables

/-- The shown form of a number. -/
def Number.shown : Number → Text
  | .integer n => Text.ofInt n
  | .double x => x.text

namespace Json

mutual

/-- The shown form of a value. -/
def shown : Json → Text
  | .null => "None"
  | .bool true => "True"
  | .bool false => "False"
  | .number n => n.shown
  | .string s => s.quote
  | .array items => '\x5b' :: (Text.join ", " (shownItems items) ++ "]")
  | .object fields => '\x7b' :: (Text.join ", " (shownFields fields) ++ "\x7d")

def shownItems : List Json → List Text
  | [] => []
  | item :: items => item.shown :: shownItems items

def shownFields : List (Text × Json) → List Text
  | [] => []
  | (name, value) :: fields => (name.quote ++ ": " ++ value.shown) :: shownFields fields

end

/-- A value as a text. -/
def text : Json → Text
  | .string s => s
  | v => v.shown

/-- A value as a yes or no. What is no number counts as a yes. -/
def isYes : Json → Bool
  | .null => false
  | .bool b => b
  | .number (.integer n) => n != 0
  | .number (.double (.finite x)) => x.mantissa != 0
  | .number (.double _) => true
  | .string s => !s.isEmpty
  | .array items => !items.isEmpty
  | .object fields => !fields.isEmpty

end Json

end LootTables
