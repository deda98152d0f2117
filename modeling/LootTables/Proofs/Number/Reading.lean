import LootTables.Number.Decimal
import LootTables.Proofs.Number.Rounding

/-!
# Reading decimals

A decimal is read as the double in whose rounding interval it lies (`Double.ofDecimal_eq_finite_iff`),
and the decimals that read back to a number are those of its interval (`Binary.readsBack_iff`). Both
compute with natural numbers only: powers of two and ten with a negative exponent are moved to the other
side of a comparison or below the line of a quotient.
-/

namespace LootTables

-- A power is that of the natural numbers, also where a more general one is known.
attribute [local instance (high)] instPowNat

/-! ### Digits -/

theorem digitCount_pos (n : ℕ) : 0 < digitCount n := List.length_pos_iff.2 Nat.toDigits_ne_nil

theorem digitCount_le_iff {n k : ℕ} (hk : 0 < k) : digitCount n ≤ k ↔ n < 10 ^ k :=
  Nat.length_toDigits_le_iff (by decide) hk

theorem lt_pow_digitCount (n : ℕ) : n < 10 ^ digitCount n :=
  (digitCount_le_iff (digitCount_pos n)).1 le_rfl

theorem pow_digitCount_le {n : ℕ} (hn : n ≠ 0) : 10 ^ (digitCount n - 1) ≤ n := by
  have hpos := digitCount_pos n
  rcases Nat.eq_zero_or_pos (digitCount n - 1) with hone | hmore
  · rw [hone, Nat.pow_zero]
    exact Nat.one_le_iff_ne_zero.2 hn
  · by_contra hlt
    have hle := (digitCount_le_iff hmore).2 (not_le.1 hlt)
    omega

/-- The number that a decimal stands for. -/
def Decimal.value (d : Decimal) : ℚ := d.digits * 10 ^ d.exponent

namespace Decimal

variable {d : Decimal}

theorem value_nonneg (d : Decimal) : 0 ≤ d.value := by
  unfold value
  positivity

theorem value_eq_div (d : Decimal) :
    d.value = (d.digits * 10 ^ d.exponent.toNat : ℕ) / (10 ^ (-d.exponent).toNat : ℕ) := by
  unfold value
  rw [zpow_eq_div 10 d.exponent]
  push_cast
  ring

theorem value_lt (d : Decimal) : d.value < 10 ^ (d.exponent + digitCount d.digits) := by
  have hdigits : (d.digits : ℚ) < 10 ^ digitCount d.digits := by
    exact_mod_cast lt_pow_digitCount d.digits
  unfold value
  rw [add_comm, zpow_add₀ (by norm_num), zpow_natCast]
  exact mul_lt_mul_of_pos_right hdigits (by positivity)

theorem le_value (hd : d.digits ≠ 0) : 10 ^ (d.exponent + digitCount d.digits - 1) ≤ d.value := by
  have hdigits : (10 : ℚ) ^ (digitCount d.digits - 1) ≤ d.digits := by
    exact_mod_cast pow_digitCount_le hd
  have hpos := digitCount_pos d.digits
  have hexponent : d.exponent + digitCount d.digits - 1 =
      (digitCount d.digits - 1 : ℕ) + d.exponent := by omega
  unfold value
  rw [hexponent, zpow_add₀ (by norm_num), zpow_natCast]
  exact mul_le_mul_of_nonneg_right hdigits (by positivity)

end Decimal

/-! ### The nearest double -/

theorem isRoundingOf_zero {x : Binary binary64} (hx : x.mantissa = 0) {q : ℚ} (hq : 0 ≤ q)
    (h : q < 10 ^ (-324 : ℤ)) : x.IsRoundingOf q := by
  have hexponent : x.exponent = -1074 := x.canonical.2.2.2 (by rw [hx]; decide)
  have hmagnitude : x.magnitude = 0 := by rw [x.magnitude_eq_mul_step, hx, Nat.cast_zero, zero_mul]
  have hstep : (10 : ℚ) ^ (-324 : ℤ) < x.step / 2 := by
    rw [Binary.step, hexponent, zpow_neg, zpow_neg, ← one_div, ← one_div, div_div,
      one_div_lt_one_div (by positivity) (by positivity)]
    exact_mod_cast (by decide +kernel : 2 ^ 1074 * 2 < 10 ^ 324)
  refine Binary.isRoundingOf_of_lt ?_ ?_
  · rw [hmagnitude]
    linarith [x.stepBelow_pos]
  · rw [hmagnitude]
    linarith

theorem overflow_binary64_le : binary64.overflow ≤ 10 ^ (309 : ℤ) := by
  calc binary64.overflow ≤ 2 ^ 53 * 2 ^ (971 : ℤ) :=
        mul_le_mul_of_nonneg_right (by norm_num) (by positivity)
    _ ≤ 10 ^ (309 : ℤ) := by exact_mod_cast (by decide +kernel : 2 ^ 53 * 2 ^ 971 ≤ 10 ^ 309)

/-- A decimal is read as the number with the given sign in whose interval it lies, or as an infinity if it
lies past all of them. -/
theorem Double.ofDecimal_cases (negative : Bool) (d : Decimal) :
    (∃ x, Double.ofDecimal negative d = .finite x ∧ x.negative = negative ∧ x.IsRoundingOf d.value) ∨
      Double.ofDecimal negative d = .infinite negative ∧ binary64.overflow ≤ d.value := by
  unfold Double.ofDecimal
  dsimp only
  split
  · next htiny =>
    refine .inl ⟨_, rfl, rfl, isRoundingOf_zero rfl d.value_nonneg ?_⟩
    rcases htiny with hzero | hsmall
    · rw [Decimal.value, hzero, Nat.cast_zero, zero_mul]
      positivity
    · exact d.value_lt.trans_le (zpow_le_zpow_right₀ (by norm_num) hsmall)
  · next hnonzero =>
    rw [not_or] at hnonzero
    split
    · next hhuge =>
      refine .inr ⟨rfl, overflow_binary64_le.trans ?_⟩
      exact (zpow_le_zpow_right₀ (by norm_num) (by omega)).trans (Decimal.le_value hnonzero.1)
    · have hpos : 0 < 10 ^ (-d.exponent).toNat := Nat.pow_pos (by decide)
      rw [d.value_eq_div]
      split
      · next x hx =>
        exact .inl ⟨x, rfl, BinaryFormat.isRoundingOf_of_round BinaryFormat.binary64_isProper hpos hx⟩
      · next hnone =>
        exact .inr ⟨rfl, (BinaryFormat.round_eq_none_iff BinaryFormat.binary64_isProper hpos).1 hnone⟩

theorem Double.ofDecimal_eq_finite_iff {negative : Bool} {d : Decimal} {x : Binary binary64} :
    Double.ofDecimal negative d = .finite x ↔ x.negative = negative ∧ x.IsRoundingOf d.value := by
  rcases Double.ofDecimal_cases negative d with ⟨y, hy, hnegative, hrounding⟩ | ⟨hinfinite, hover⟩
  · rw [hy]
    constructor
    · rintro ⟨⟩
      exact ⟨hnegative, hrounding⟩
    · rintro ⟨hx, h⟩
      rw [Binary.eq_of_magnitude_eq (hnegative.trans hx.symm) (hrounding.magnitude_eq h)]
  · rw [hinfinite]
    constructor
    · rintro ⟨⟩
    · rintro ⟨-, h⟩
      exact absurd (BinaryFormat.lt_overflow BinaryFormat.binary64_isProper h) (not_lt_of_ge hover)

/-! ### The decimals that read back -/

/-- The comparison of scaled numbers is that of the rational numbers, which are both multiplied by
the same powers of two and ten. -/
theorem compareScaled_eq (a : ℕ) (i : ℤ) (b : ℕ) (j : ℤ) :
    compareScaled a i b j = compare ((a : ℚ) * 10 ^ i) (b * 2 ^ j) := by
  have hpos : (0 : ℚ) < 2 ^ (-j).toNat * 10 ^ (-i).toNat := by positivity
  have hleft : ((a * 10 ^ i.toNat * 2 ^ (-j).toNat : ℕ) : ℚ) =
      a * 10 ^ i * (2 ^ (-j).toNat * 10 ^ (-i).toNat) := by
    rw [zpow_eq_div 10 i]
    push_cast
    field_simp
  have hright : ((b * 2 ^ j.toNat * 10 ^ (-i).toNat : ℕ) : ℚ) =
      b * 2 ^ j * (2 ^ (-j).toNat * 10 ^ (-i).toNat) := by
    rw [zpow_eq_div 2 j]
    push_cast
    field_simp
  unfold compareScaled
  generalize a * 10 ^ i.toNat * 2 ^ (-j).toNat = left at hleft ⊢
  generalize b * 2 ^ j.toNat * 10 ^ (-i).toNat = right at hright ⊢
  rcases lt_trichotomy ((a : ℚ) * 10 ^ i) (b * 2 ^ j) with h | h | h
  · have hlt : left < right := by
      have hscaled := mul_lt_mul_of_pos_right h hpos
      rw [← hleft, ← hright] at hscaled
      exact_mod_cast hscaled
    rw [compare_lt_iff_lt.2 h, compare_lt_iff_lt.2 hlt]
  · have heq : left = right := by
      rw [h, ← hright] at hleft
      exact_mod_cast hleft
    rw [compare_eq_iff_eq.2 h, compare_eq_iff_eq.2 heq]
  · have hgt : right < left := by
      have hscaled := mul_lt_mul_of_pos_right h hpos
      rw [← hleft, ← hright] at hscaled
      exact_mod_cast hscaled
    rw [compare_gt_iff_gt.2 h, compare_gt_iff_gt.2 hgt]

namespace Binary

variable {f : BinaryFormat} {x : Binary f} {d : Decimal}

/-- The decimals that read back to a number are those of its rounding interval. -/
theorem readsBack_iff (hx : x.mantissa ≠ 0) : x.readsBack d ↔ x.IsRoundingOf d.value := by
  have hquarter : (2 : ℚ) ^ (x.exponent - 2) = x.step / 4 := by
    rw [step, zpow_sub₀ two_ne_zero]
    norm_num
  have hlow : ((4 * x.mantissa - if x.isNarrowBelow then 1 else 2 : ℕ) : ℚ) * 2 ^ (x.exponent - 2) =
      x.magnitude - x.stepBelow / 2 := by
    rw [hquarter, magnitude_eq_mul_step, stepBelow]
    split
    · rw [Nat.cast_sub (by omega)]
      push_cast
      ring
    · rw [Nat.cast_sub (by omega)]
      push_cast
      ring
  have hhigh : ((4 * x.mantissa + 2 : ℕ) : ℚ) * 2 ^ (x.exponent - 2) = x.magnitude + x.step / 2 := by
    rw [hquarter, magnitude_eq_mul_step]
    push_cast
    ring
  unfold readsBack
  dsimp only
  rw [compareScaled_eq, compareScaled_eq, hlow, hhigh]
  change (if _ then (compare d.value _).isGE && (compare d.value _).isLE
    else (compare d.value _).isGT && (compare d.value _).isLT) = true ↔ _
  split
  · next heven =>
    rw [Bool.and_eq_true, ← Ordering.ne_lt_iff_isGE, ← Ordering.ne_gt_iff_isLE, ← ne_eq, ← ne_eq,
      compare_ge_iff_ge, compare_le_iff_le]
    constructor
    · rintro ⟨hlower, hupper⟩
      exact ⟨hlower, hupper, fun _ => heven, fun _ => heven⟩
    · intro h
      exact ⟨h.lower, h.upper⟩
  · next hodd =>
    rw [Bool.and_eq_true, Ordering.isGT_iff_eq_gt, Ordering.isLT_iff_eq_lt, compare_gt_iff_gt,
      compare_lt_iff_lt]
    constructor
    · rintro ⟨hlower, hupper⟩
      exact isRoundingOf_of_lt hlower hupper
    · intro h
      exact ⟨lt_of_le_of_ne h.lower fun heq => hodd (h.even_of_lower heq.symm),
        lt_of_le_of_ne h.upper fun heq => hodd (h.even_of_upper heq)⟩

end Binary

end LootTables
