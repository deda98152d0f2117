import LootTables.Files.Path
import LootTables.Json.Path
import LootTables.Proofs.Text.Numeral

/-!
# Following a written path

The text of a path is all that a message shows of it. `Json.follow?` reads such a text: it is cut at
its slashes, stands for the whole value in front of the first one, and then names a key of an object or
an index of an array, piece by piece. As long as no key has a slash in it, nothing of the path is lost
in its text: it leads to the same part (`follow?_pathText`).
-/

namespace LootTables

/-- What is written of a step after its slash. -/
def PathStep.key : PathStep → Text
  | .field name => name
  | .item index => Text.ofNat index

theorem PathStep.text_eq (step : PathStep) : step.text = [Path.slash] ++ step.key := by
  cases step <;> rfl

theorem pathText_eq (path : JsonPath) :
    pathText path = "#" ++ (path.map PathStep.key).flatMap ([Path.slash] ++ ·) := by
  have htext : PathStep.text = fun step => [Path.slash] ++ step.key := funext PathStep.text_eq
  unfold pathText
  rw [htext, List.flatMap_map]

namespace Json

/-- The part of a value that a piece of a written path names: the value of a key, or the item with a
decimal index. -/
def part? (v : Json) (piece : Text) : Option Json :=
  match v with
  | .object fields => fields.lookup piece
  | .array items =>
    if piece ≠ [] ∧ piece.all CodePoint.isDigit then items[Text.natOfDigits piece]? else none
  | _ => none

/-- The part of a value to which a written path leads. -/
def follow? (v : Json) (path : Text) : Option Json :=
  match Text.split Path.slash path with
  | root :: pieces => if root = "#" then pieces.foldlM part? v else none
  | [] => none

variable {v w : Json}

/-- A step leads to the part that its key names. -/
theorem part?_key {step : PathStep} (h : v.child? step = some w) : v.part? step.key = some w := by
  cases step with
  | field name =>
    cases v with
    | object fields => exact h
    | _ => cases h
  | item index =>
    cases v with
    | array items =>
      have hdigits : (Text.ofNat index).all CodePoint.isDigit :=
        List.all_eq_true.2 fun c hc => Text.isDigit_of_mem_ofNat hc
      show (if Text.ofNat index ≠ [] ∧ (Text.ofNat index).all CodePoint.isDigit then
        items[Text.natOfDigits (Text.ofNat index)]? else none) = some w
      rw [if_pos ⟨Text.ofNat_ne_nil index, hdigits⟩, Text.natOfDigits_ofNat]
      exact h
    | _ => cases h

theorem foldlM_part?_keys {path : JsonPath} (h : v.at? path = some w) :
    (path.map PathStep.key).foldlM part? v = some w := by
  induction path generalizing v with
  | nil => exact h
  | cons step path ih =>
    obtain ⟨u, hu, hw⟩ := Option.bind_eq_some_iff.1 h
    rw [List.map_cons, List.foldlM_cons, part?_key hu]
    exact ih hw

/-- The text of a path leads where the path leads. -/
theorem follow?_pathText {path : JsonPath} (hkeys : ∀ step ∈ path, Path.slash ∉ step.key)
    (h : v.at? path = some w) : v.follow? (pathText path) = some w := by
  have hroot : Path.slash ∉ ("#" : Text) := by decide
  have hpieces : ∀ piece ∈ path.map PathStep.key, Path.slash ∉ piece := List.forall_mem_map.2 hkeys
  unfold follow?
  rw [pathText_eq, Text.split_append_flatMap hroot hpieces]
  exact foldlM_part?_keys h

end Json

end LootTables
