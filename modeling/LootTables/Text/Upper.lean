import LootTables.Text
import LootTables.Text.UpperTable

/-!
# Upper case

Upper-casing replaces each code point by its full upper-case mapping. A mapping may have several
code points (`ß` becomes `SS`) and never depends on the neighbours, so `upper` distributes over
concatenation by construction.
-/

namespace LootTables.Text

/-- The image of the code point `n` under a run, when the run contains it. -/
def Upper.Run.image? (r : Upper.Run) (n : Nat) : Option Nat :=
  if r.first ≤ n ∧ n ≤ r.last ∧ (n - r.first) % r.step = 0 then some (r.image + (n - r.first))
  else none

/-- The full upper-case mapping of one code point. -/
def upperPoint (c : CodePoint) : Text :=
  match Upper.expansions.lookup c.val with
  | some image => image.map CodePoint.ofNat
  | none =>
    match Upper.runs.findSome? (·.image? c.val) with
    | some image => [CodePoint.ofNat image]
    | none => [c]

/-- The text in upper case. -/
def upper (s : Text) : Text := s.flatMap upperPoint

theorem upper_append (s t : Text) : upper (s ++ t) = upper s ++ upper t :=
  List.flatMap_append

end LootTables.Text
