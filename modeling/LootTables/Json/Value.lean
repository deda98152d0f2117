import LootTables.Assoc
import LootTables.Number.Bound

/-!
# JSON values

A document after reading. Numbers keep the difference between an integer and a double, and an
object keeps its fields in the order in which their keys were first written: `Json.ofMembers` builds
an object by putting its members into an empty one, so that of a repeated key the last value counts.
-/

namespace LootTables

/-- A JSON value. -/
inductive Json where
  | null
  | bool (b : Bool)
  | number (n : Number)
  | string (s : Text)
  | array (items : List Json)
  | object (fields : List (Text × Json))

/-- What kind of value it is; integers and doubles are two kinds. -/
inductive JsonKind where
  | null
  | boolean
  | integer
  | double
  | string
  | array
  | object
deriving DecidableEq

/-- The kind of a value. -/
def Json.kind : Json → JsonKind
  | .null => .null
  | .bool _ => .boolean
  | .number (.integer _) => .integer
  | .number (.double _) => .double
  | .string _ => .string
  | .array _ => .array
  | .object _ => .object

/-- The kind with its article, as decode messages name it. -/
def JsonKind.withArticle : JsonKind → Text
  | .null => "null"
  | .boolean => "a boolean"
  | .integer => "an integer"
  | .double => "a number"
  | .string => "a string"
  | .array => "an array"
  | .object => "an object"

/-- The kind in one word, as messages about settings name it. -/
def JsonKind.word : JsonKind → Text
  | .null => "NoneType"
  | .boolean => "bool"
  | .integer => "int"
  | .double => "float"
  | .string => "str"
  | .array => "list"
  | .object => "dict"

/-- The object whose members are written in this order. -/
def Json.ofMembers (members : List (Text × Json)) : Json :=
  .object (members.foldl (fun fields member => Assoc.put member.1 member.2 fields) [])

/-! ### Equality is decidable -/

namespace Json

mutual

private def decEqValue : (a b : Json) → Decidable (a = b)
  | .null, .null => isTrue rfl
  | .bool a, .bool b => if h : a = b then isTrue (h ▸ rfl) else isFalse fun e => h (by injection e)
  | .number a, .number b =>
    if h : a = b then isTrue (h ▸ rfl) else isFalse fun e => h (by injection e)
  | .string a, .string b =>
    if h : a = b then isTrue (h ▸ rfl) else isFalse fun e => h (by injection e)
  | .array as, .array bs =>
    match decEqItems as bs with
    | isTrue h => isTrue (h ▸ rfl)
    | isFalse h => isFalse fun e => h (by injection e)
  | .object as, .object bs =>
    match decEqFields as bs with
    | isTrue h => isTrue (h ▸ rfl)
    | isFalse h => isFalse fun e => h (by injection e)
  | .null, .bool _ | .null, .number _ | .null, .string _ | .null, .array _ | .null, .object _
  | .bool _, .null | .bool _, .number _ | .bool _, .string _ | .bool _, .array _
  | .bool _, .object _ | .number _, .null | .number _, .bool _ | .number _, .string _
  | .number _, .array _ | .number _, .object _ | .string _, .null | .string _, .bool _
  | .string _, .number _ | .string _, .array _ | .string _, .object _ | .array _, .null
  | .array _, .bool _ | .array _, .number _ | .array _, .string _ | .array _, .object _
  | .object _, .null | .object _, .bool _ | .object _, .number _ | .object _, .string _
  | .object _, .array _ => isFalse nofun

private def decEqItems : (as bs : List Json) → Decidable (as = bs)
  | [], [] => isTrue rfl
  | [], _ :: _ | _ :: _, [] => isFalse nofun
  | a :: as, b :: bs =>
    match decEqValue a b with
    | isFalse h => isFalse fun e => h (by injection e)
    | isTrue h =>
      match decEqItems as bs with
      | isTrue hs => isTrue (h ▸ hs ▸ rfl)
      | isFalse hs => isFalse fun e => hs (by injection e)

private def decEqFields : (as bs : List (Text × Json)) → Decidable (as = bs)
  | [], [] => isTrue rfl
  | [], _ :: _ | _ :: _, [] => isFalse nofun
  | (k, a) :: as, (l, b) :: bs =>
    if hk : k = l then
      match decEqValue a b with
      | isFalse h => isFalse fun e => h (by injection e with e; injection e)
      | isTrue h =>
        match decEqFields as bs with
        | isTrue hs => isTrue (hk ▸ h ▸ hs ▸ rfl)
        | isFalse hs => isFalse fun e => hs (by injection e)
    else isFalse fun e => hk (by injection e with e; injection e)

end

instance : DecidableEq Json := decEqValue

end Json

end LootTables
