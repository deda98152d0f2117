import LootTables.Number.Binary
import LootTables.Text

/-!
# Decimals

A decimal is `digits * 10 ^ exponent`. Three functions tie decimals to doubles:

* `Double.ofDecimal` reads one: the double nearest to it, an infinity past the largest.
* `Binary.readsBack` says which decimals read back to a given number: those closer to it than to
  its neighbours, together with the two halfway points when its mantissa is even.
* `Binary.shortest` chooses among those: the fewest digits that read back and, of several decimals
  with that many digits, the one nearest to the number.

The search for the shortest goes from coarse to fine through the grids of one to seventeen
digits. On each grid only the two neighbours of the number can be nearest to it, so only these
are tried.
-/

namespace LootTables

-- A power is that of the natural numbers, also where a more general one is known.
attribute [local instance (high)] instPowNat

/-- `digits * 10 ^ exponent`. -/
structure Decimal where
  digits : Nat
  exponent : Int
deriving DecidableEq

/-- How many decimal digits a number is written with; zero has one. -/
def digitCount (n : Nat) : Nat := (Nat.toDigits 10 n).length

/-! ### Reading -/

/-- The double nearest to a decimal. A decimal of at least `10 ^ 309` is past every double, and
one below `10 ^ -324` is nearest to zero; in between the quotient is rounded. -/
def Double.ofDecimal (negative : Bool) (d : Decimal) : Double :=
  let zero : Binary binary64 := ⟨negative, 0, -1074, Binary.canonical_zero⟩
  let magnitude := d.exponent + digitCount d.digits
  if d.digits = 0 ∨ magnitude ≤ -324 then .finite zero
  else if 310 ≤ magnitude then .infinite negative
  else
    match binary64.round negative (d.digits * 10 ^ d.exponent.toNat) (10 ^ (-d.exponent).toNat) with
    | some x => .finite x
    | none => .infinite negative

/-! ### The decimals that read back -/

/-- `a * 10 ^ i` compared with `b * 2 ^ j`. -/
def compareScaled (a : Nat) (i : Int) (b : Nat) (j : Int) : Ordering :=
  compare (a * 10 ^ i.toNat * 2 ^ (-j).toNat) (b * 2 ^ j.toNat * 10 ^ (-i).toNat)

namespace Binary

variable {f : BinaryFormat}

/-- The number is a power of two above the least ones: the number below it is only half as far
away as the number above it. -/
def isNarrowBelow (x : Binary f) : Bool :=
  x.mantissa = 2 ^ (f.precision - 1) && f.minExponent < x.exponent

/-- The magnitude of `x` is the nearest one to `d`. The two halfway points to the neighbours are
at `4 * mantissa - 2` (`- 1` below a power of two) and `4 * mantissa + 2` quarters of a step. -/
def readsBack (x : Binary f) (d : Decimal) : Bool :=
  let low := 4 * x.mantissa - if x.isNarrowBelow then 1 else 2
  let high := 4 * x.mantissa + 2
  let fromLow := compareScaled d.digits d.exponent low (x.exponent - 2)
  let toHigh := compareScaled d.digits d.exponent high (x.exponent - 2)
  if x.mantissa % 2 = 0 then fromLow.isGE && toHigh.isLE else fromLow.isGT && toHigh.isLT

/-! ### The shortest of them -/

/-- The least `k` with `num / den < 10 ^ k`, for a quotient that is not zero. -/
def decimalScale (num den : Nat) : Int :=
  if den ≤ num then digitCount (num / den) else 1 - digitCount ((den - 1) / num)

/-- The better of the two neighbours of `x` on the grid of multiples of `10 ^ exponent`, if one of
them reads back. Halfway between them the even one is better. -/
def nearestOnGrid? (x : Binary f) (exponent : Int) : Option Decimal :=
  let num := x.numerator * 10 ^ (-exponent).toNat
  let den := x.denominator * 10 ^ exponent.toNat
  let below : Decimal := ⟨num / den, exponent⟩
  let above : Decimal := ⟨num / den + 1, exponent⟩
  match x.readsBack below, x.readsBack above with
  | true, true => some ⟨roundEven num den, exponent⟩
  | true, false => some below
  | false, true => some above
  | false, false => none

/-- The magnitude of `x` as a decimal, digit for digit. -/
def exactDecimal (x : Binary f) : Decimal :=
  if 0 ≤ x.exponent then ⟨x.mantissa * 2 ^ x.exponent.toNat, 0⟩
  else ⟨x.mantissa * 5 ^ (-x.exponent).toNat, x.exponent⟩

end Binary

/-- Moves zeros at the end of the digits into the exponent, at most `limit` of them. -/
def Decimal.dropZeros : (limit : Nat) → Decimal → Decimal
  | 0, d => d
  | limit + 1, d =>
    if d.digits ≠ 0 ∧ d.digits % 10 = 0 then dropZeros limit ⟨d.digits / 10, d.exponent + 1⟩ else d

/-- The decimal with the fewest digits that reads back to the magnitude of `x`. Seventeen digits
are always enough; should they not be, the exact decimal stands in. -/
def Binary.shortest {f : BinaryFormat} (x : Binary f) : Decimal :=
  if x.mantissa = 0 then ⟨0, 0⟩
  else
    let scale := decimalScale x.numerator x.denominator
    let found := (List.range 17).findSome? fun (n : Nat) => x.nearestOnGrid? (scale - (n + 1))
    let d := found.getD x.exactDecimal
    d.dropZeros (digitCount d.digits)

end LootTables
