import LootTables.Number.Layout

/-!
# Bounds of a range

The bounds of a range are single-precision numbers in the generated code. A bound is read as a
double (or given as an integer), narrowed to the nearest single, and written as a literal with one
digit after the point. `Number.toSingle` refuses what is not finite or lies past the largest
single; `Number.literal` is defined on all that is left.

A literal is taken from the single in two steps: first the shortest decimal that identifies the
single among the *doubles*, then that decimal rounded to tenths, halves away from zero.
-/

namespace LootTables

-- A power is that of the natural numbers, also where a more general one is known.
attribute [local instance (high)] instPowNat

/-- A number as documents and models have it: an integer of any size, or a double. -/
inductive Number where
  | integer (n : Int)
  | double (x : Double)
deriving DecidableEq

/-- How many digits a bound may have once it is rounded. -/
def literalCapacity : Nat := 60

/-- Why a number is no bound. -/
inductive BoundError where
  /-- An infinity, or no number. -/
  | notFinite (x : Double)
  /-- A double past the largest single. -/
  | pastSingle (x : Double)
  /-- An integer past the largest single. -/
  | integerPastSingle
  /-- An integer past the largest double. -/
  | integerPastDouble
  /-- A literal with more digits than are worked with. -/
  | literalTooLong
deriving DecidableEq

/-- The wording of a refusal. -/
def BoundError.message : BoundError → Text
  | .notFinite x => x.text ++ " is not a finite number"
  | .pastSingle x => x.text ++ " does not fit in a single-precision float"
  | .integerPastSingle => "int too large to convert"
  | .integerPastDouble => "int too large to convert to float"
  | .literalTooLong => "a literal has more than " ++ Text.ofNat literalCapacity ++ " digits"

/-- The single nearest to a double. -/
def Double.toSingle (x : Double) : Except BoundError Single :=
  match x with
  | .finite y =>
    match y.narrow? with
    | some s => .ok s
    | none => .error (.pastSingle x)
  | _ => .error (.notFinite x)

/-- The double nearest to a number. -/
def Number.toDouble : Number → Except BoundError Double
  | .double x => .ok x
  | .integer n =>
    match Binary.ofInt? n with
    | some x => .ok (.finite x)
    | none => .error .integerPastDouble

/-- The single nearest to a number. An integer is rounded to a double first. -/
def Number.toSingle : Number → Except BoundError Single
  | .double x => x.toSingle
  | .integer n =>
    match Binary.ofInt? n with
    | none => .error .integerPastDouble
    | some x =>
      match x.narrow? with
      | some s => .ok s
      | none => .error .integerPastSingle

/-! ### Literals -/

/-- The decimal in tenths, rounded to the nearest integer, halves up. -/
def Decimal.tenths (d : Decimal) : Nat :=
  if -1 ≤ d.exponent then d.digits * 10 ^ (d.exponent + 1).toNat
  else
    let unit := 10 ^ (-1 - d.exponent).toNat
    (2 * d.digits + unit) / (2 * unit)

/-- The literal of a single: sign, integer part, point, one digit and the suffix `F`. -/
def Single.literal (s : Single) : Except BoundError Text :=
  let tenths := s.widen.shortest.tenths
  if literalCapacity < digitCount tenths then .error .literalTooLong
  else .ok (signText s.negative ++ Text.ofNat (tenths / 10) ++ "." ++ Text.ofNat (tenths % 10) ++ "F")

/-- The literal of a bound. -/
def Number.literal (n : Number) : Except BoundError Text := do
  let s ← n.toSingle
  s.literal

end LootTables
