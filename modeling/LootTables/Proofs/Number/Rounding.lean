import LootTables.Proofs.Number.Interval

/-!
# Rounding to a format

Rounding a quotient gives the number of the format in whose interval the quotient lies
(`BinaryFormat.round_eq_some_iff`), and none exactly from the point on that lies half a step above the
largest number (`BinaryFormat.round_eq_none_iff`).

The mantissa is the integer nearest to the quotient on a grid that is chosen by the size of the
quotient (`gridMantissa_isNearest`). It remains to be shown that the grid fits: the mantissa has no bit
too many, except when rounding carries over to the next power of two, and no bit too few above the
finest grid.
-/

namespace LootTables

-- A power is that of the natural numbers, also where a more general one is known.
attribute [local instance (high)] instPowNat

/-! ### Rounding to an integer -/

/-- `n` is the integer nearest to `q`, of two equally near ones the even one. -/
structure IsNearestInteger (n : ℕ) (q : ℚ) : Prop where
  near : |n - q| ≤ 1 / 2
  even : |n - q| = 1 / 2 → n % 2 = 0

namespace IsNearestInteger

variable {n k : ℕ} {q : ℚ}

theorem le_of_le (h : IsNearestInteger n q) (hk : (k : ℚ) ≤ q) : k ≤ n := by
  have hnear := (abs_le.1 h.near).1
  have hlt : (k : ℚ) < n + 1 := by linarith
  exact Nat.lt_succ_iff.1 (by exact_mod_cast hlt)

theorem le_of_ge (h : IsNearestInteger n q) (hk : q ≤ k) : n ≤ k := by
  have hnear := (abs_le.1 h.near).2
  have hlt : (n : ℚ) < k + 1 := by linarith
  exact Nat.lt_succ_iff.1 (by exact_mod_cast hlt)

/-- Two different integers are at least one apart. -/
theorem one_le_abs_sub_add {j : ℕ} (hne : j ≠ n) (q : ℚ) : 1 ≤ |(j : ℚ) - q| + |(n : ℚ) - q| := by
  have hdistance : (1 : ℚ) ≤ |(j : ℚ) - n| := by
    exact_mod_cast Int.one_le_abs (sub_ne_zero.2 (Nat.cast_injective.ne hne))
  calc (1 : ℚ) ≤ |(j : ℚ) - n| := hdistance
    _ ≤ |(j : ℚ) - q| + |q - n| := abs_sub_le _ _ _
    _ = |(j : ℚ) - q| + |(n : ℚ) - q| := by rw [abs_sub_comm q]

theorem abs_sub_le_abs_sub (h : IsNearestInteger n q) (j : ℕ) : |(n : ℚ) - q| ≤ |(j : ℚ) - q| := by
  by_cases hne : j = n
  · rw [hne]
  · linarith [one_le_abs_sub_add hne q, h.near]

theorem even_of_abs_sub_eq (h : IsNearestInteger n q) {j : ℕ} (hne : j ≠ n)
    (heq : |(j : ℚ) - q| = |(n : ℚ) - q|) : n % 2 = 0 :=
  h.even (by linarith [one_le_abs_sub_add hne q, h.near])

/-- On a grid of multiples of `s` the nearest point is at most half of `s` away. -/
theorem mul (h : IsNearestInteger n q) {s : ℚ} (hs : 0 < s) :
    n * s - s / 2 ≤ q * s ∧ q * s ≤ n * s + s / 2 ∧
      (q * s = n * s - s / 2 ∨ q * s = n * s + s / 2 → n % 2 = 0) := by
  obtain ⟨hlower, hupper⟩ := abs_le.1 h.near
  have hbelow := mul_le_mul_of_nonneg_right hupper hs.le
  have habove := mul_le_mul_of_nonneg_right hlower hs.le
  refine ⟨by linarith, by linarith, fun htie => h.even ?_⟩
  rcases htie with htie | htie
  · have heq : n - q = 1 / 2 := mul_right_cancel₀ hs.ne' (by linarith)
    rw [heq, abs_of_nonneg (by norm_num)]
  · have heq : n - q = -(1 / 2) := mul_right_cancel₀ hs.ne' (by linarith)
    rw [heq, abs_neg, abs_of_nonneg (by norm_num)]

end IsNearestInteger

theorem roundEven_isNearest (num : ℕ) {den : ℕ} (hden : 0 < den) :
    IsNearestInteger (roundEven num den) (num / den) := by
  have hpos : (0 : ℚ) < den := by exact_mod_cast hden
  have hsplit : (num : ℚ) / den = (num / den : ℕ) + (num % den : ℕ) / den := by
    rw [div_eq_iff hpos.ne', add_mul, div_mul_cancel₀ _ hpos.ne', mul_comm]
    exact_mod_cast (Nat.div_add_mod num den).symm
  unfold roundEven
  rw [hsplit]
  have hlt : num % den < den := Nat.mod_lt num hden
  generalize num / den = k
  generalize num % den = r at hlt ⊢
  dsimp only
  split
  · next h =>
    have hr : (r : ℚ) / den < 1 / 2 := by
      rw [div_lt_div_iff₀ hpos two_pos]
      exact_mod_cast (by omega : r * 2 < 1 * den)
    have hdistance : |(k : ℚ) - (k + r / den)| < 1 / 2 := by
      rw [sub_add_cancel_left, abs_neg, abs_of_nonneg (by positivity)]
      exact hr
    exact ⟨hdistance.le, fun heq => absurd heq hdistance.ne⟩
  · split
    · next h =>
      have hr : 1 / 2 < (r : ℚ) / den := by
        rw [div_lt_div_iff₀ two_pos hpos]
        exact_mod_cast (by omega : 1 * den < r * 2)
      have hone : (r : ℚ) / den < 1 := by
        rw [div_lt_one hpos]
        exact_mod_cast hlt
      have hdistance : |((k + 1 : ℕ) : ℚ) - (k + r / den)| < 1 / 2 := by
        push_cast
        rw [add_sub_add_left_eq_sub, abs_of_nonneg (by linarith)]
        linarith
      exact ⟨hdistance.le, fun heq => absurd heq hdistance.ne⟩
    · next hle hge =>
      -- The quotient lies halfway between two integers.
      have hr : (r : ℚ) / den = 1 / 2 := by
        rw [div_eq_div_iff hpos.ne' two_ne_zero]
        exact_mod_cast (by omega : r * 2 = 1 * den)
      have heven : (k + k % 2) % 2 = 0 := by omega
      refine ⟨?_, fun _ => heven⟩
      rcases Nat.mod_two_eq_zero_or_one k with hk | hk
      · rw [hr, hk, Nat.add_zero, sub_add_cancel_left, abs_neg, abs_of_nonneg (by norm_num)]
      · rw [hr, hk]
        push_cast
        rw [add_sub_add_left_eq_sub, abs_of_nonneg (by norm_num)]
        norm_num

/-! ### Rounding on a grid -/

section

variable {num den : ℕ}

/-- Moving powers of two to the other side of a quotient scales it. -/
theorem scaled_div (num den : ℕ) (e : ℤ) :
    ((num * 2 ^ (-e).toNat : ℕ) : ℚ) / (den * 2 ^ e.toNat : ℕ) = num / den / 2 ^ e := by
  rw [zpow_eq_div 2 e]
  push_cast
  field_simp

theorem scaled_pos (hden : 0 < den) (e : ℤ) : 0 < den * 2 ^ e.toNat :=
  Nat.mul_pos hden (Nat.two_pow_pos _)

theorem pow_le_div_iff (num : ℕ) (hden : 0 < den) (e : ℤ) :
    den * 2 ^ e.toNat ≤ num * 2 ^ (-e).toNat ↔ (2 : ℚ) ^ e ≤ num / den := by
  have hpos : (0 : ℚ) < (den * 2 ^ e.toNat : ℕ) := by exact_mod_cast scaled_pos hden e
  rw [← one_le_div (by positivity : (0 : ℚ) < 2 ^ e), ← scaled_div, one_le_div hpos]
  exact_mod_cast Iff.rfl

theorem floorLog2_spec (hnum : num ≠ 0) (hden : den ≠ 0) :
    (2 : ℚ) ^ floorLog2 num den ≤ num / den ∧ (num : ℚ) / den < 2 ^ (floorLog2 num den + 1) := by
  have hpos : (0 : ℚ) < den := by exact_mod_cast Nat.pos_of_ne_zero hden
  have hnumLow : ((2 ^ num.log2 : ℕ) : ℚ) ≤ num := by exact_mod_cast Nat.log2_self_le hnum
  have hnumHigh : (num : ℚ) < (2 ^ (num.log2 + 1) : ℕ) := by exact_mod_cast Nat.lt_log2_self
  have hdenLow : ((2 ^ den.log2 : ℕ) : ℚ) ≤ den := by exact_mod_cast Nat.log2_self_le hden
  have hdenHigh : (den : ℚ) < (2 ^ (den.log2 + 1) : ℕ) := by exact_mod_cast Nat.lt_log2_self
  push_cast at hnumLow hnumHigh hdenLow hdenHigh
  have hlow : (2 : ℚ) ^ ((num.log2 : ℤ) - den.log2 - 1) ≤ num / den := by
    rw [le_div_iff₀ hpos]
    calc (2 : ℚ) ^ ((num.log2 : ℤ) - den.log2 - 1) * den
        ≤ 2 ^ ((num.log2 : ℤ) - den.log2 - 1) * 2 ^ (den.log2 + 1) :=
          mul_le_mul_of_nonneg_left hdenHigh.le (by positivity)
      _ = 2 ^ num.log2 := by
          rw [← zpow_natCast, ← zpow_natCast, ← zpow_add₀ two_ne_zero]
          congr 1
          push_cast
          ring
      _ ≤ num := hnumLow
  have hhigh : (num : ℚ) / den < 2 ^ ((num.log2 : ℤ) - den.log2 + 1) := by
    rw [div_lt_iff₀ hpos]
    calc (num : ℚ) < 2 ^ (num.log2 + 1) := hnumHigh
      _ = 2 ^ ((num.log2 : ℤ) - den.log2 + 1) * 2 ^ den.log2 := by
          rw [← zpow_natCast, ← zpow_natCast, ← zpow_add₀ two_ne_zero]
          congr 1
          push_cast
          ring
      _ ≤ 2 ^ ((num.log2 : ℤ) - den.log2 + 1) * den :=
          mul_le_mul_of_nonneg_left hdenLow (by positivity)
  have htest := pow_le_div_iff num (Nat.pos_of_ne_zero hden) (num.log2 - den.log2)
  unfold floorLog2
  dsimp only
  split
  · next h => exact ⟨htest.1 h, hhigh⟩
  · next h =>
    rw [sub_add_cancel]
    exact ⟨hlow, lt_of_not_ge fun hle => h (htest.2 hle)⟩

end

/-! ### Rounding in a format -/

namespace BinaryFormat

variable {f : BinaryFormat} {num den : ℕ} {negative : Bool} {x : Binary f}

/-- The format has at least two bits, so that powers of two are even, and at least one exponent. -/
structure IsProper (f : BinaryFormat) : Prop where
  precision : 1 < f.precision
  exponent : f.minExponent ≤ f.maxExponent

theorem binary64_isProper : binary64.IsProper := ⟨by decide, by decide⟩

theorem binary32_isProper : binary32.IsProper := ⟨by decide, by decide⟩

/-- The point from which on nothing is rounded to a number: half a step above the largest one. -/
def overflow (f : BinaryFormat) : ℚ := (2 ^ f.precision - 1 / 2) * 2 ^ f.maxExponent

theorem IsProper.two_pow_precision (hf : f.IsProper) :
    2 ^ f.precision = 2 * 2 ^ (f.precision - 1) := by
  have hprecision := hf.precision
  rw [← Nat.pow_succ', Nat.succ_eq_add_one, Nat.sub_add_cancel (by omega)]

theorem IsProper.two_pow_even (hf : f.IsProper) : 2 ^ (f.precision - 1) % 2 = 0 := by
  have hprecision := hf.precision
  rw [show f.precision - 1 = f.precision - 2 + 1 by omega, Nat.pow_succ]
  omega

/-- The mantissa to which a quotient is rounded. It may have one bit too many. -/
def gridMantissa (f : BinaryFormat) (num den : ℕ) : ℕ :=
  roundEven (num * 2 ^ (-f.gridExponent num den).toNat) (den * 2 ^ (f.gridExponent num den).toNat)

theorem gridMantissa_isNearest (f : BinaryFormat) (num : ℕ) (hden : 0 < den) :
    IsNearestInteger (f.gridMantissa num den) (num / den / 2 ^ f.gridExponent num den) := by
  rw [← scaled_div]
  exact roundEven_isNearest _ (scaled_pos hden _)

theorem number?_eq_some_iff {m : ℕ} {e : ℤ} :
    f.number? negative m e = some x ↔ x.negative = negative ∧ x.mantissa = m ∧ x.exponent = e := by
  unfold number?
  constructor
  · intro h
    split at h
    · cases h
      exact ⟨rfl, rfl, rfl⟩
    · cases h
  · rintro ⟨rfl, rfl, rfl⟩
    exact dif_pos x.canonical

/-- Above the finest grid a quotient is at least as large as the power of two with which its binade
begins. -/
theorem pow_mul_le_div (hnum : num ≠ 0) (hden : 0 < den) (h : f.minExponent < f.gridExponent num den)
    (hprecision : 0 < f.precision) :
    ((2 ^ (f.precision - 1) : ℕ) : ℚ) * 2 ^ f.gridExponent num den ≤ num / den := by
  have hgrid : floorLog2 num den = (f.precision - 1 : ℕ) + f.gridExponent num den := by
    unfold gridExponent at h ⊢
    omega
  calc ((2 ^ (f.precision - 1) : ℕ) : ℚ) * 2 ^ f.gridExponent num den = 2 ^ floorLog2 num den := by
        rw [hgrid, zpow_add₀ two_ne_zero, zpow_natCast]
        push_cast
        rfl
    _ ≤ num / den := (floorLog2_spec hnum hden.ne').1

theorem gridMantissa_le (hnum : num ≠ 0) (hden : 0 < den) :
    f.gridMantissa num den ≤ 2 ^ f.precision := by
  apply (f.gridMantissa_isNearest num hden).le_of_ge
  have hgrid : floorLog2 num den + 1 ≤ f.precision + f.gridExponent num den := by
    unfold gridExponent
    omega
  rw [div_le_iff₀ (by positivity)]
  calc (num : ℚ) / den ≤ 2 ^ (floorLog2 num den + 1) := (floorLog2_spec hnum hden.ne').2.le
    _ ≤ 2 ^ (f.precision + f.gridExponent num den) := zpow_le_zpow_right₀ one_le_two hgrid
    _ = (2 ^ f.precision : ℕ) * 2 ^ f.gridExponent num den := by
        rw [zpow_add₀ two_ne_zero, zpow_natCast]
        push_cast
        rfl

/-- The mantissa has its full number of bits unless the grid is the finest one. -/
theorem le_gridMantissa (hnum : num ≠ 0) (hden : 0 < den) (h : f.minExponent < f.gridExponent num den)
    (hprecision : 0 < f.precision) : 2 ^ (f.precision - 1) ≤ f.gridMantissa num den := by
  apply (f.gridMantissa_isNearest num hden).le_of_le
  rw [le_div_iff₀ (by positivity)]
  exact pow_mul_le_div hnum hden h hprecision

theorem round_of_ne_zero (hnum : num ≠ 0) :
    f.round negative num den =
      if f.gridMantissa num den = 2 ^ f.precision then
        f.number? negative (2 ^ (f.precision - 1)) (f.gridExponent num den + 1)
      else f.number? negative (f.gridMantissa num den) (f.gridExponent num den) := if_neg hnum

/-- The quotient is at most half a step away from its point on the grid, and exactly half a step only
from an even one. -/
theorem gridMantissa_near (f : BinaryFormat) (num : ℕ) (hden : 0 < den) {s q : ℚ}
    (hs : s = 2 ^ f.gridExponent num den) (hq : q = f.gridMantissa num den * s) :
    q - s / 2 ≤ num / den ∧ num / den ≤ q + s / 2 ∧
      ((num : ℚ) / den = q - s / 2 ∨ num / den = q + s / 2 → f.gridMantissa num den % 2 = 0) := by
  subst hs hq
  have hnear := (f.gridMantissa_isNearest num hden).mul
    (by positivity : (0 : ℚ) < 2 ^ f.gridExponent num den)
  rwa [div_mul_cancel₀ _ (by positivity)] at hnear

/-- A mantissa that is rounded up to one bit too many stands for the next power of two. -/
theorem isRoundingOf_of_carry (hf : f.IsProper) (hden : 0 < den)
    (hcarry : f.gridMantissa num den = 2 ^ f.precision) (hmantissa : x.mantissa = 2 ^ (f.precision - 1))
    (hexponent : x.exponent = f.gridExponent num den + 1) : x.IsRoundingOf (num / den) := by
  have hstep : x.step = 2 * 2 ^ f.gridExponent num den := by
    rw [Binary.step, hexponent, zpow_add_one₀ two_ne_zero, mul_comm]
  have hnarrow : x.isNarrowBelow := by
    have hleast : f.minExponent ≤ f.gridExponent num den := le_max_left _ _
    exact Binary.isNarrowBelow_iff.2 ⟨hmantissa, by omega⟩
  have hmagnitude : x.magnitude = f.gridMantissa num den * 2 ^ f.gridExponent num den := by
    rw [Binary.magnitude_eq_mul_step, hstep, hmantissa, hcarry, hf.two_pow_precision]
    push_cast
    ring
  obtain ⟨hlower, hupper, -⟩ := f.gridMantissa_near num hden rfl hmagnitude
  have hpos := x.step_pos
  have hxeven : x.mantissa % 2 = 0 := hmantissa ▸ hf.two_pow_even
  refine ⟨?_, ?_, fun _ => hxeven, fun _ => hxeven⟩
  · rw [Binary.stepBelow, if_pos hnarrow]
    linarith
  · linarith

/-- Any other mantissa stands for the point of the grid. -/
theorem isRoundingOf_of_grid (hf : f.IsProper) (hnum : num ≠ 0) (hden : 0 < den)
    (hmantissa : x.mantissa = f.gridMantissa num den) (hexponent : x.exponent = f.gridExponent num den) :
    x.IsRoundingOf (num / den) := by
  have hstep : x.step = 2 ^ f.gridExponent num den := by rw [Binary.step, hexponent]
  have hmagnitude : x.magnitude = f.gridMantissa num den * x.step := by
    rw [Binary.magnitude_eq_mul_step, hmantissa]
  obtain ⟨hlower, hupper, heven⟩ := f.gridMantissa_near num hden hstep hmagnitude
  rw [← hmantissa] at heven
  by_cases hnarrow : x.isNarrowBelow
  · -- The quotient is not below the power of two.
    obtain ⟨hpow, hmin⟩ := Binary.isNarrowBelow_iff.1 hnarrow
    have hle := pow_mul_le_div hnum hden (hexponent ▸ hmin) (Nat.zero_lt_of_lt hf.precision)
    rw [← hstep, ← hpow, ← Binary.magnitude_eq_mul_step] at hle
    have hlt : x.magnitude - x.stepBelow / 2 < num / den := by linarith [x.stepBelow_pos]
    exact ⟨hlt.le, hupper, fun heq => absurd heq hlt.ne', fun heq => heven (.inr heq)⟩
  · have hbelow : x.stepBelow = x.step := if_neg hnarrow
    rw [← hbelow] at hlower
    exact ⟨hlower, hupper, fun heq => heven (.inl (hbelow ▸ heq)), fun heq => heven (.inr heq)⟩

/-- A quotient lies in the interval of the number to which it is rounded. -/
theorem isRoundingOf_of_round (hf : f.IsProper) (hden : 0 < den)
    (h : f.round negative num den = some x) : x.negative = negative ∧ x.IsRoundingOf (num / den) := by
  by_cases hnum : num = 0
  · rw [round, if_pos hnum, number?_eq_some_iff] at h
    obtain ⟨hnegative, hmantissa, -⟩ := h
    have hzero : (num : ℚ) / den = x.magnitude := by
      simp [Binary.magnitude, hnum, hmantissa]
    exact ⟨hnegative, hzero ▸ x.isRoundingOf_magnitude⟩
  · rw [round_of_ne_zero hnum] at h
    split at h
    · next hcarry =>
      obtain ⟨hnegative, hmantissa, hexponent⟩ := number?_eq_some_iff.1 h
      exact ⟨hnegative, isRoundingOf_of_carry hf hden hcarry hmantissa hexponent⟩
    · obtain ⟨hnegative, hmantissa, hexponent⟩ := number?_eq_some_iff.1 h
      exact ⟨hnegative, isRoundingOf_of_grid hf hnum hden hmantissa hexponent⟩

/-- Whatever is rounded to a number lies below the overflow. -/
theorem lt_overflow {q : ℚ} (hf : f.IsProper) (h : x.IsRoundingOf q) : q < f.overflow := by
  have hupper := h.upper
  have hpow := hf.two_pow_precision
  have hlimit : (x.mantissa + 1 / 2 : ℚ) * x.step < f.overflow ∨
      x.mantissa % 2 = 1 ∧ (x.mantissa + 1 / 2 : ℚ) * x.step ≤ f.overflow := by
    have hstep : x.step ≤ 2 ^ f.maxExponent := zpow_le_zpow_right₀ one_le_two x.canonical.2.2.1
    have hlast : (2 ^ f.precision - 1 / 2 : ℚ) * x.step ≤ f.overflow := by
      have hone : (1 : ℚ) ≤ 2 ^ f.precision := one_le_pow₀ one_le_two
      exact mul_le_mul_of_nonneg_left hstep (by linarith)
    rcases (Nat.succ_le_of_lt x.canonical.1).lt_or_eq with hlt | heq
    · have hmantissa : (x.mantissa : ℚ) + 1 < 2 ^ f.precision := by exact_mod_cast hlt
      exact .inl (lt_of_lt_of_le (mul_lt_mul_of_pos_right (by linarith) x.step_pos) hlast)
    · have hmantissa : (x.mantissa : ℚ) + 1 = 2 ^ f.precision := by exact_mod_cast heq
      refine .inr ⟨by omega, le_of_eq_of_le ?_ hlast⟩
      rw [← hmantissa]
      ring
  have hend : x.magnitude + x.step / 2 = (x.mantissa + 1 / 2) * x.step := by
    rw [Binary.magnitude_eq_mul_step]
    ring
  rcases hlimit with hlt | ⟨hodd, hle⟩
  · linarith
  · -- The end of the interval does not belong to it.
    have hne : q ≠ x.magnitude + x.step / 2 := fun heq => by
      have heven := h.even_of_upper heq
      omega
    exact lt_of_lt_of_le (lt_of_le_of_ne hupper hne) (hend.trans_le hle)

/-- Below the overflow every quotient is rounded to a number. -/
theorem exists_round (hf : f.IsProper) (hden : 0 < den) (negative : Bool)
    (h : (num : ℚ) / den < f.overflow) : ∃ x, f.round negative num den = some x := by
  have hprecision : 0 < f.precision := Nat.zero_lt_of_lt hf.precision
  have hexists : ∀ {m : ℕ} {e : ℤ}, f.Canonical m e → ∃ x, f.number? negative m e = some x :=
    fun hcanonical => ⟨_, dif_pos hcanonical⟩
  by_cases hnum : num = 0
  · rw [round, if_pos hnum]
    exact hexists ⟨Nat.two_pow_pos _, le_rfl, hf.exponent, fun _ => rfl⟩
  have hleast : f.minExponent ≤ f.gridExponent num den := le_max_left _ _
  have hover : f.overflow = 2 ^ f.precision * 2 ^ f.maxExponent - 2 ^ f.maxExponent / 2 := by
    unfold overflow
    ring
  have hpos : (0 : ℚ) < 2 ^ f.maxExponent := by positivity
  rw [round_of_ne_zero hnum]
  split
  · next hcarry =>
    refine hexists ⟨?_, by omega, ?_, fun hsmall => absurd hsmall (Nat.lt_irrefl _)⟩
    · exact Nat.pow_lt_pow_right Nat.one_lt_two (Nat.sub_lt hprecision Nat.one_pos)
    · by_contra hlarge
      obtain ⟨hlower, -⟩ := (f.gridMantissa_isNearest num hden).mul
        (by positivity : (0 : ℚ) < 2 ^ f.gridExponent num den)
      rw [div_mul_cancel₀ _ (by positivity), hcarry] at hlower
      have hstep : (2 : ℚ) ^ f.maxExponent ≤ 2 ^ f.gridExponent num den :=
        zpow_le_zpow_right₀ one_le_two (by omega)
      have hone : (1 : ℚ) ≤ 2 ^ f.precision := one_le_pow₀ one_le_two
      have hmul := mul_le_mul_of_nonneg_left hstep (by linarith : (0 : ℚ) ≤ 2 ^ f.precision - 1 / 2)
      push_cast at hlower
      linarith
  · next hcarry =>
    refine hexists ⟨lt_of_le_of_ne (gridMantissa_le hnum hden) hcarry, hleast, ?_, fun hsmall => ?_⟩
    · by_contra hlarge
      have hmin : f.minExponent < f.gridExponent num den := hf.exponent.trans_lt (not_le.1 hlarge)
      have hstep : (2 : ℚ) * 2 ^ f.maxExponent ≤ 2 ^ f.gridExponent num den := by
        rw [← zpow_one_add₀ two_ne_zero]
        exact zpow_le_zpow_right₀ one_le_two (by omega)
      have hpow : (2 ^ f.precision : ℚ) = 2 * (2 ^ (f.precision - 1) : ℕ) := by
        exact_mod_cast hf.two_pow_precision
      have hle := pow_mul_le_div hnum hden hmin hprecision
      have hmul := mul_le_mul_of_nonneg_left hstep
        (by positivity : (0 : ℚ) ≤ (2 ^ (f.precision - 1) : ℕ))
      rw [hover, hpow] at h
      linarith
    · by_contra hne
      exact absurd hsmall (Nat.not_lt.2
        (le_gridMantissa hnum hden (lt_of_le_of_ne hleast (Ne.symm hne)) hprecision))

/-- A quotient is rounded to the number with the given sign in whose interval it lies. -/
theorem round_eq_some_iff (hf : f.IsProper) (hden : 0 < den) :
    f.round negative num den = some x ↔ x.negative = negative ∧ x.IsRoundingOf (num / den) := by
  refine ⟨isRoundingOf_of_round hf hden, fun ⟨hnegative, h⟩ => ?_⟩
  obtain ⟨y, hy⟩ := exists_round hf hden negative (lt_overflow hf h)
  obtain ⟨hynegative, hyrounding⟩ := isRoundingOf_of_round hf hden hy
  rw [hy, Binary.eq_of_magnitude_eq (hynegative.trans hnegative.symm) (hyrounding.magnitude_eq h)]

theorem round_eq_none_iff (hf : f.IsProper) (hden : 0 < den) :
    f.round negative num den = none ↔ f.overflow ≤ num / den := by
  constructor
  · intro h
    by_contra hlt
    obtain ⟨x, hx⟩ := exists_round hf hden negative (not_le.1 hlt)
    cases h.symm.trans hx
  · intro h
    cases hx : f.round negative num den with
    | none => rfl
    | some x => exact absurd (lt_overflow hf (isRoundingOf_of_round hf hden hx).2) (not_lt_of_ge h)

end BinaryFormat

/-! ### Up to a power of two -/

section

variable {f : BinaryFormat} {x : Binary f} {q : ℚ} {k : ℤ}

/-- The power of two `f.pow k` is the least number with the step `2 ^ k`. -/
def BinaryFormat.pow (f : BinaryFormat) (k : ℤ) : ℚ := 2 ^ (f.precision - 1) * 2 ^ k

theorem BinaryFormat.exists_pow (hf : f.IsProper) (hmin : f.minExponent < k) (hmax : k ≤ f.maxExponent) :
    ∃ y : Binary f, y.magnitude = f.pow k ∧ y.isNarrowBelow ∧ y.step = 2 ^ k := by
  have hlt : 2 ^ (f.precision - 1) < 2 ^ f.precision := by
    have hpos := Nat.two_pow_pos (f.precision - 1)
    have hpow := hf.two_pow_precision
    omega
  refine ⟨⟨false, 2 ^ (f.precision - 1), k, hlt, hmin.le, hmax, fun h => absurd h (lt_irrefl _)⟩, ?_,
    Binary.isNarrowBelow_iff.2 ⟨rfl, hmin⟩, rfl⟩
  rw [Binary.magnitude_eq_mul_step, BinaryFormat.pow, Binary.step]
  push_cast
  rfl

namespace Binary.IsRoundingOf

theorem lt_pow (h : x.IsRoundingOf q) (hf : f.IsProper) (hmin : f.minExponent < k)
    (hmax : k ≤ f.maxExponent) (hx : x.magnitude < f.pow k) : q < f.pow k := by
  obtain ⟨y, hy, -⟩ := BinaryFormat.exists_pow hf hmin hmax
  rw [← hy] at hx ⊢
  exact h.lt y.isRoundingOf_magnitude hx

theorem magnitude_le_pow (h : x.IsRoundingOf q) (hf : f.IsProper) (hmin : f.minExponent < k)
    (hmax : k ≤ f.maxExponent) (hq : q ≤ f.pow k) : x.magnitude ≤ f.pow k := by
  obtain ⟨y, hy, -⟩ := BinaryFormat.exists_pow hf hmin hmax
  rw [← hy] at hq ⊢
  exact h.magnitude_le y.isRoundingOf_magnitude hq

/-- A quotient that is not past a power of two is rounded by at most half the step below this power. -/
theorem abs_sub_le_pow (h : x.IsRoundingOf q) (hf : f.IsProper) (hmin : f.minExponent < k)
    (hmax : k ≤ f.maxExponent) (hq : q ≤ f.pow k) : |x.magnitude - q| ≤ 2 ^ k / 4 := by
  obtain ⟨y, hy, hnarrow, hstep⟩ := BinaryFormat.exists_pow hf hmin hmax
  have hle := h.abs_sub_le_stepBelow hnarrow (hy ▸ hq)
  rw [stepBelow, if_pos hnarrow, hstep] at hle
  linarith

end Binary.IsRoundingOf

end

end LootTables
