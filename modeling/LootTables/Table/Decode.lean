import LootTables.Json.Path
import LootTables.Table.Model
import LootTables.Text.Quoted

/-!
# Decoding a document

`Json.toTable` decodes a document into a loot table, or names the first defect: where in the
document it is and what is wrong there. A number of rolls and a count are constant when they are
bare numbers and uniform when they are objects; entries and functions say what they are with a
tag. Fields with other names are never looked at.

A decoder of a part knows nothing of where the part is. The path of a defect grows on the way out:
whoever decodes a part of a value puts the step to that part in front (`within`).
-/

namespace LootTables

/-- What is wrong at some place of a document. -/
inductive Cause where
  | notObject (found : JsonKind)
  | missing (field : Text)
  | wrongKind (field : Text) (expected found : JsonKind)
  | notInteger (found : JsonKind)
  | notIntegral (x : Double)
  | notNumber (field : Text) (found : JsonKind)
  | outOfRange (field : Text) (error : BoundError)
  | noEntries
  /-- A function, or a distribution of counts, that cannot be converted. -/
  | unsupported (function : Text)
deriving DecidableEq

/-- The wording of a cause. -/
def Cause.message : Cause → Text
  | .notObject found => "expected an object, got " ++ found.withArticle
  | .missing field => "missing required field " ++ field.quote
  | .wrongKind field expected found =>
    field.quote ++ " should be " ++ expected.withArticle ++ ", got " ++ found.withArticle
  | .notInteger found => "expected an integer, got " ++ found.withArticle
  | .notIntegral x => "expected an integer, got " ++ x.text
  | .notNumber field found => field.quote ++ " should be a number, got " ++ found.withArticle
  | .outOfRange field error =>
    field.quote ++ " is out of range for a float: " ++ error.message
  | .noEntries => "pool has no entries"
  | .unsupported function => "unsupported loot function: " ++ function.quote

/-- A defect and the path to it. -/
structure Defect where
  path : JsonPath
  cause : Cause
deriving DecidableEq

/-- A defect in the document of a named table. -/
structure DecodeError extends Defect where
  table : Text
deriving DecidableEq

/-- Table, path and cause; a table without a name is left out. -/
def DecodeError.message (e : DecodeError) : Text :=
  let place := pathText e.path
  (if e.table.isEmpty then place else e.table ++ " " ++ place) ++ ": " ++ e.cause.message

/-- The result of decoding a part, seen from one step further out. -/
def within {α : Type} (step : PathStep) (result : Except Defect α) : Except Defect α :=
  result.mapError fun defect => { defect with path := step :: defect.path }

/-- A defect at the place itself. -/
def defect {α : Type} (cause : Cause) : Except Defect α := .error ⟨[], cause⟩

/-! ### Fields -/

/-- The fields of a decoded object. -/
abbrev Fields := List (Text × Json)

/-- The fields of a value that has to be an object. -/
def Json.fields : Json → Except Defect Fields
  | .object fields => .ok fields
  | v => defect (.notObject v.kind)

namespace Fields

/-- A field that has to be present. -/
def required (fields : Fields) (name : Text) : Except Defect Json :=
  match fields.lookup name with
  | some v => .ok v
  | none => defect (.missing name)

/-- A field that has to be a string. -/
def requiredString (fields : Fields) (name : Text) : Except Defect Text := do
  match ← fields.required name with
  | .string s => return s
  | v => within (.field name) (defect (.wrongKind name .string v.kind))

/-- A present field that has to be an array. -/
def asArray (name : Text) : Json → Except Defect (List Json)
  | .array items => .ok items
  | v => within (.field name) (defect (.wrongKind name .array v.kind))

/-- A field that has to be an array. -/
def requiredArray (fields : Fields) (name : Text) : Except Defect (List Json) := do
  asArray name (← fields.required name)

/-- A field that has to be an array when it is present. -/
def optionalArray (fields : Fields) (name : Text) : Except Defect (List Json) :=
  match fields.lookup name with
  | some v => asArray name v
  | none => .ok []

end Fields

/-! ### Numbers -/

/-- The integer of a value: an integer, or a double without a fraction. -/
def Json.toInteger : Json → Except Defect Int
  | .number (.integer n) => .ok n
  | .number (.double (.finite x)) =>
    match x.toInt? with
    | some n => .ok n
    | none => defect (.notIntegral (.finite x))
  | .number (.double x) => defect (.notIntegral x)
  | v => defect (.notInteger v.kind)

namespace Fields

/-- An integer field. -/
def requiredInteger (fields : Fields) (name : Text) : Except Defect Int := do
  let v ← fields.required name
  within (.field name) v.toInteger

/-- An integer field that is zero when it is absent. -/
def optionalInteger (fields : Fields) (name : Text) : Except Defect Int :=
  match fields.lookup name with
  | some v => within (.field name) v.toInteger
  | none => .ok 0

/-- The double of a number that a single can hold. -/
def asBound (name : Text) : Json → Except Defect Number
  | .number n =>
    match n.toDouble with
    | .error e => defect (.outOfRange name e)
    | .ok x =>
      match x.toSingle with
      | .error e => defect (.outOfRange name e)
      | .ok _ => .ok (.double x)
  | v => defect (.notNumber name v.kind)

/-- A bound of a range. -/
def bound (fields : Fields) (name : Text) : Except Defect Number := do
  let v ← fields.required name
  within (.field name) (asBound name v)

end Fields

/-- Decodes the items of an array, of which `index` came before. -/
def decodeItems {α : Type} (decode : Json → Except Defect α) :
    (index : Nat) → List Json → Except Defect (List α)
  | _, [] => .ok []
  | index, item :: items => do
    let x ← within (.item index) (decode item)
    let xs ← decodeItems decode (index + 1) items
    return x :: xs

/-! ### The parts of a table -/

/-- The namespace of the tags. -/
def tagNamespace : Text := "minecraft:"

/-- The tag of a name. -/
def tag (name : Text) : Text := tagNamespace ++ name

/-- The marker with a tag. -/
def Marker.ofTag? (t : Text) : Option Marker := Marker.all.find? fun m => tag m.name = t

/-- A number of rolls: constant as a number, uniform as an object. -/
def decodeRoll : Json → Except Defect Roll
  | .object fields => do
    let min ← Fields.bound fields "min"
    let max ← Fields.bound fields "max"
    return .uniform min max
  | v => do return .constant (← v.toInteger)

/-- A count: constant as a number; an object names its distribution, which has to be uniform. -/
def decodeCount : Json → Except Defect LootFunction
  | .object fields => do
    let distribution ← Fields.requiredString fields "type"
    if distribution = tag "uniform" then
      let min ← Fields.bound fields "min"
      let max ← Fields.bound fields "max"
      return .uniformCount min max
    else defect (.unsupported (tag "set_count" ++ " (" ++ distribution ++ ")"))
  | v => do return .constantCount (← v.toInteger)

/-- A function, told by its tag. -/
def decodeFunction (v : Json) : Except Defect LootFunction := do
  let fields ← v.fields
  let t ← Fields.requiredString fields "function"
  if t = tag "set_count" then
    let count ← Fields.required fields "count"
    within (.field "count") (decodeCount count)
  else
    match Marker.ofTag? t with
    | some m => return .marker m
    | none => defect (.unsupported t)

/-- The item that is given: a book that is enchanted at random is an enchanted book. -/
def givenItem (name : Text) (functions : List LootFunction) : Text :=
  if name = tag "book" ∧ LootFunction.marker .enchantRandomly ∈ functions then tag "enchanted_book"
  else name

/-- An entry: nothing with a weight, or an item. Whatever is not tagged as empty is an item. -/
def decodeEntry (v : Json) : Except Defect Entry := do
  let fields ← v.fields
  let t ← Fields.requiredString fields "type"
  if t = tag "empty" then return .empty (← Fields.requiredInteger fields "weight")
  else
    let name ← Fields.requiredString fields "name"
    let weight ← Fields.optionalInteger fields "weight"
    let items ← Fields.optionalArray fields "functions"
    let functions ← within (.field "functions") (decodeItems decodeFunction 0 items)
    return .item (givenItem name functions) weight functions

/-- A pool, which has at least one entry. -/
def decodePool (v : Json) : Except Defect LootPool := do
  let fields ← v.fields
  let rolls ← Fields.required fields "rolls"
  let roll ← within (.field "rolls") (decodeRoll rolls)
  let items ← Fields.requiredArray fields "entries"
  if items.isEmpty then within (.field "entries") (defect .noEntries)
  else
    let entries ← within (.field "entries") (decodeItems decodeEntry 0 items)
    return ⟨roll, entries⟩

/-- The pools of a document. -/
def decodePools (v : Json) : Except Defect (List LootPool) := do
  let fields ← v.fields
  let items ← Fields.requiredArray fields "pools"
  within (.field "pools") (decodeItems decodePool 0 items)

/-- The table of a document, under a given name. -/
def Json.toTable (v : Json) (name : Text) : Except DecodeError LootTable :=
  match decodePools v with
  | .ok pools => .ok ⟨name, pools⟩
  | .error defect => .error { defect with table := name }

end LootTables
