import Mathlib.Algebra.Order.Field.Power
import Mathlib.Data.Rat.Cast.Order
import Mathlib.Tactic.FieldSimp
import Mathlib.Tactic.Linarith
import Mathlib.Tactic.Positivity
import Mathlib.Tactic.Ring
import LootTables.Number.Binary

/-!
# What a floating-point number stands for

The computations on floating-point numbers stay within the natural numbers: powers of two with a
negative exponent are moved to the other side of a quotient. Here the same numbers are rational,
`± mantissa * 2 ^ exponent`, and each of these computations is related to what it means:

* `Binary.magnitude_eq_div`: numerator and denominator are those of the magnitude;
* `Binary.toInt?_eq_some_iff`: the integer of a number is the integer that it stands for.
-/

namespace LootTables

/-- A power with an integer exponent as a quotient of two powers, one of which is `1`. -/
theorem zpow_eq_div (a : ℚ) (e : ℤ) : a ^ e = a ^ e.toNat / a ^ (-e).toNat := by
  rcases Int.le_total 0 e with h | h
  · obtain ⟨n, rfl⟩ := Int.eq_ofNat_of_zero_le h
    have hneg : (-(n : ℤ)).toNat = 0 := by omega
    simp [hneg]
  · obtain ⟨n, hn⟩ := Int.eq_ofNat_of_zero_le (Int.neg_nonneg.2 h)
    obtain rfl : e = -(n : ℤ) := by omega
    have hneg : (-(n : ℤ)).toNat = 0 := by omega
    simp [hneg]

namespace Binary

variable {f : BinaryFormat}

/-- The magnitude of `x`. -/
def magnitude (x : Binary f) : ℚ := x.mantissa * 2 ^ x.exponent

/-- The number that `x` stands for. -/
def value (x : Binary f) : ℚ := if x.negative then -x.magnitude else x.magnitude

theorem magnitude_nonneg (x : Binary f) : 0 ≤ x.magnitude := by
  unfold magnitude
  positivity

theorem denominator_pos (x : Binary f) : 0 < x.denominator := Nat.two_pow_pos _

theorem magnitude_eq_div (x : Binary f) : x.magnitude = x.numerator / x.denominator := by
  unfold magnitude numerator denominator
  rw [zpow_eq_div]
  push_cast
  ring

/-- Every number of a format lies below the power of two after its largest exponent. -/
theorem magnitude_lt (x : Binary f) : x.magnitude < 2 ^ (f.precision + f.maxExponent) := by
  obtain ⟨hm, -, he, -⟩ := x.canonical
  have hmantissa : (x.mantissa : ℚ) < 2 ^ f.precision := by exact_mod_cast hm
  calc x.magnitude < 2 ^ f.precision * 2 ^ x.exponent :=
        mul_lt_mul_of_pos_right hmantissa (by positivity)
    _ ≤ 2 ^ f.precision * 2 ^ f.maxExponent :=
        mul_le_mul_of_nonneg_left (zpow_le_zpow_right₀ (by norm_num) he) (by positivity)
    _ = 2 ^ (f.precision + f.maxExponent) := by
        rw [zpow_add₀ two_ne_zero, zpow_natCast]

/-! ### Integers -/

/-- A quotient of natural numbers is an integer exactly if nothing remains. -/
theorem div_eq_intCast_iff {num den : Nat} (hden : 0 < den) (n : ℤ) :
    (num : ℚ) / den = n ↔ num % den = 0 ∧ ((num / den : Nat) : ℤ) = n := by
  have hq : (den : ℚ) ≠ 0 := by positivity
  rw [div_eq_iff hq]
  constructor
  · intro h
    have hint : (num : ℤ) = n * den := by exact_mod_cast h
    have hdvd : den ∣ num := Int.natCast_dvd_natCast.1 ⟨n, by rw [hint]; ring⟩
    refine ⟨Nat.mod_eq_zero_of_dvd hdvd, ?_⟩
    rw [Int.natCast_div, hint]
    exact Int.mul_ediv_cancel _ (by positivity)
  · rintro ⟨hmod, rfl⟩
    have hsplit := Nat.div_add_mod num den
    rw [hmod, Nat.add_zero, Nat.mul_comm] at hsplit
    exact_mod_cast hsplit.symm

theorem toInt?_eq_some_iff (x : Binary f) (n : ℤ) : x.toInt? = some n ↔ x.value = n := by
  have hsigned : ∀ k : ℤ, x.magnitude = k ↔
      x.numerator % x.denominator = 0 ∧ ((x.numerator / x.denominator : Nat) : ℤ) = k := by
    intro k
    rw [magnitude_eq_div, div_eq_intCast_iff x.denominator_pos]
  unfold toInt? value
  cases x.negative with
  | false =>
    rw [if_neg Bool.false_ne_true, hsigned]
    split <;> simp_all
  | true =>
    have hneg : -x.magnitude = n ↔ x.magnitude = ((-n : ℤ) : ℚ) := by
      push_cast
      exact neg_eq_iff_eq_neg
    rw [if_pos rfl, hneg, hsigned]
    split
    · next hmod =>
      simp only [hmod, true_and, Option.some.injEq]
      push_cast
      exact neg_eq_iff_eq_neg
    · next hmod => simp [hmod]

end Binary

end LootTables
