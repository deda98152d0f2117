/-!
# Binary floating-point numbers, exactly

A finite floating-point number is a sign, an integer mantissa and a binary exponent, and stands
for exactly `± mantissa * 2 ^ exponent`. A format bounds the mantissa and the exponent; inside
these bounds each magnitude has one spelling only (`BinaryFormat.Canonical`): the mantissa has its
full number of bits unless the exponent is already the least one.

All arithmetic is on natural numbers, so nothing is lost before the one place where a number is
rounded on purpose: `BinaryFormat.round` takes a quotient to the nearest number of the format and
a quotient halfway between two of them to the one with the even mantissa.
-/

namespace LootTables

-- A power is that of the natural numbers, also where a more general one is known.
attribute [local instance (high)] instPowNat

/-- The bounds of a floating-point format. -/
structure BinaryFormat where
  /-- How many bits a mantissa has. -/
  precision : Nat
  /-- The exponent of the smallest step between two numbers. -/
  minExponent : Int
  /-- The exponent of the largest numbers. -/
  maxExponent : Int

/-- Double precision. -/
abbrev binary64 : BinaryFormat := ⟨53, -1074, 971⟩

/-- Single precision. -/
abbrev binary32 : BinaryFormat := ⟨24, -149, 104⟩

/-- The one spelling of a magnitude in the format `f`. -/
def BinaryFormat.Canonical (f : BinaryFormat) (mantissa : Nat) (exponent : Int) : Prop :=
  mantissa < 2 ^ f.precision ∧ f.minExponent ≤ exponent ∧ exponent ≤ f.maxExponent ∧
    (mantissa < 2 ^ (f.precision - 1) → exponent = f.minExponent)

instance (f : BinaryFormat) (m : Nat) (e : Int) : Decidable (f.Canonical m e) :=
  inferInstanceAs (Decidable (_ ∧ _ ∧ _ ∧ (_ → _)))

/-- A finite number of the format `f`. Zero has a sign. -/
structure Binary (f : BinaryFormat) where
  negative : Bool
  mantissa : Nat
  exponent : Int
  canonical : f.Canonical mantissa exponent
deriving DecidableEq

/-- A double: a finite number, an infinity of either sign, or no number at all. -/
inductive Double where
  | nan
  | infinite (negative : Bool)
  | finite (x : Binary binary64)
deriving DecidableEq

/-- A finite single-precision number. -/
abbrev Single := Binary binary32

/-! ### The magnitude as a quotient -/

namespace Binary

variable {f : BinaryFormat}

/-- The magnitude is `numerator / denominator`, with a power of two below the line. -/
def numerator (x : Binary f) : Nat := x.mantissa * 2 ^ x.exponent.toNat

def denominator (x : Binary f) : Nat := 2 ^ (-x.exponent).toNat

/-- The integer that `x` stands for, when it stands for one. -/
def toInt? (x : Binary f) : Option Int :=
  if x.numerator % x.denominator = 0 then
    let n : Int := x.numerator / x.denominator
    some (if x.negative then -n else n)
  else none

/-- The natural number `n` is at most `x`. -/
def isAtLeast (x : Binary f) (n : Nat) : Bool :=
  if x.negative then n = 0 && x.mantissa = 0 else n * x.denominator ≤ x.numerator

end Binary

/-- The natural number `n` is at most `x`; nothing compares with what is no number. -/
def Double.isAtLeast (x : Double) (n : Nat) : Bool :=
  match x with
  | .nan => false
  | .infinite negative => !negative
  | .finite x => x.isAtLeast n

/-! ### Rounding -/

/-- The quotient rounded to the nearest integer, halves to the even one. -/
def roundEven (num den : Nat) : Nat :=
  let q := num / den
  let r := num % den
  if 2 * r < den then q else if den < 2 * r then q + 1 else q + q % 2

/-- The exponent of the largest power of two that is at most `num / den`. -/
def floorLog2 (num den : Nat) : Int :=
  let e : Int := num.log2 - den.log2
  if den * 2 ^ e.toNat ≤ num * 2 ^ (-e).toNat then e else e - 1

namespace BinaryFormat

/-- A number with the given parts, when they are a spelling of the format. -/
def number? (f : BinaryFormat) (negative : Bool) (mantissa : Nat) (exponent : Int) :
    Option (Binary f) :=
  if h : f.Canonical mantissa exponent then some ⟨negative, mantissa, exponent, h⟩ else none

/-- The exponent of the grid on which `num / den` is rounded: the finest one that the format has
where the integer part keeps within the precision. -/
def gridExponent (f : BinaryFormat) (num den : Nat) : Int :=
  max f.minExponent (floorLog2 num den + 1 - f.precision)

/-- The number of the format nearest to `num / den`, of two equally near ones the one with the
even mantissa; none when that would lie past the largest number. A mantissa that is rounded up to
one bit too many is halved onto the next grid. -/
def round (f : BinaryFormat) (negative : Bool) (num den : Nat) : Option (Binary f) :=
  if num = 0 then f.number? negative 0 f.minExponent
  else
    let e := f.gridExponent num den
    let m := roundEven (num * 2 ^ (-e).toNat) (den * 2 ^ e.toNat)
    if m = 2 ^ f.precision then f.number? negative (2 ^ (f.precision - 1)) (e + 1)
    else f.number? negative m e

end BinaryFormat

/-! ### Between the formats -/

namespace Binary

/-- The double nearest to an integer, when one is near enough. -/
def ofInt? (n : Int) : Option (Binary binary64) := binary64.round (n < 0) n.natAbs 1

/-- The single nearest to a double, when one is near enough. The sign stays, also of a zero. -/
def narrow? (x : Binary binary64) : Option Single :=
  binary32.round x.negative x.numerator x.denominator

/-- How many bits a single's mantissa is moved up to fill that of a double. -/
def wideningShift (m : Nat) : Nat := 52 - m.log2

theorem canonical_zero : binary64.Canonical 0 (-1074) := by decide

theorem canonical_widen {m : Nat} {e : Int} (h : binary32.Canonical m e) (hm : m ≠ 0) :
    binary64.Canonical (m * 2 ^ wideningShift m) (e - wideningShift m) := by
  obtain ⟨lt, least, greatest, _⟩ := h
  simp only at lt least greatest
  have log_lt : m.log2 < 24 := (Nat.log2_lt hm).2 lt
  have low : 2 ^ m.log2 ≤ m := Nat.log2_self_le hm
  have high : m < 2 ^ (m.log2 + 1) := Nat.lt_log2_self
  have shift : wideningShift m = 52 - m.log2 := rfl
  have pos : 0 < 2 ^ wideningShift m := Nat.two_pow_pos _
  refine ⟨?_, ?_, ?_, fun small => ?_⟩
  · calc m * 2 ^ wideningShift m < 2 ^ (m.log2 + 1) * 2 ^ wideningShift m :=
          Nat.mul_lt_mul_of_pos_right high pos
      _ = 2 ^ 53 := by rw [← Nat.pow_add]; congr 1; omega
  · show (-1074 : Int) ≤ _; omega
  · show _ ≤ (971 : Int); omega
  · have : 2 ^ 52 ≤ m * 2 ^ wideningShift m := by
      calc 2 ^ 52 = 2 ^ m.log2 * 2 ^ wideningShift m := by rw [← Nat.pow_add]; congr 1; omega
        _ ≤ m * 2 ^ wideningShift m := Nat.mul_le_mul_right _ low
    exact absurd small (Nat.not_lt.2 this)

/-- A single as a double: the same number, spelled with a longer mantissa. -/
def widen (x : Single) : Binary binary64 :=
  if h : x.mantissa = 0 then ⟨x.negative, 0, -1074, canonical_zero⟩
  else ⟨x.negative, _, _, canonical_widen x.canonical h⟩

end Binary

end LootTables
