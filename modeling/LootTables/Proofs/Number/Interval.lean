import Mathlib.Algebra.Order.Ring.Abs
import LootTables.Number.Decimal
import LootTables.Proofs.Number.Value

/-!
# Rounding intervals

The quotients that are rounded to a floating-point number form an interval around its magnitude
(`Binary.IsRoundingOf`). It reaches halfway to the neighbours on either side, and its two ends belong
to it only if the mantissa is even. Whatever rounds, reads or writes numbers is described by these
intervals, and all that is used of them is shown here:

* the intervals of different magnitudes are disjoint and in the order of the magnitudes
  (`IsRoundingOf.lt`), so that rounding is monotone and unambiguous;
* a number is nearest to all that is in its interval, and where another one is as near its mantissa is
  even (`IsRoundingOf.isNearest`).

Both come from the distances to the neighbours. The next larger magnitude is one `step` away; the next
smaller one is as far, or half as far below a power of two (`stepBelow`).
-/

namespace LootTables

-- A power is that of the natural numbers, also where a more general one is known.
attribute [local instance (high)] instPowNat

namespace Binary

variable {f : BinaryFormat} {x y : Binary f} {q r : ℚ}

/-! ### Neighbours -/

/-- The distance to the next larger magnitude. -/
def step (x : Binary f) : ℚ := 2 ^ x.exponent

/-- The distance to the next smaller magnitude. -/
def stepBelow (x : Binary f) : ℚ := if x.isNarrowBelow then x.step / 2 else x.step

theorem magnitude_eq_mul_step (x : Binary f) : x.magnitude = x.mantissa * x.step := rfl

theorem step_pos (x : Binary f) : 0 < x.step := by
  unfold step
  positivity

theorem stepBelow_pos (x : Binary f) : 0 < x.stepBelow := by
  have hstep := x.step_pos
  unfold stepBelow
  split <;> linarith

theorem stepBelow_le (x : Binary f) : x.stepBelow ≤ x.step := by
  have hstep := x.step_pos
  unfold stepBelow
  split <;> linarith

theorem isNarrowBelow_iff :
    x.isNarrowBelow ↔ x.mantissa = 2 ^ (f.precision - 1) ∧ f.minExponent < x.exponent := by
  simp [isNarrowBelow]

/-- Above the finest grid the mantissa has its full number of bits. -/
theorem le_mantissa (h : f.minExponent < x.exponent) : 2 ^ (f.precision - 1) ≤ x.mantissa :=
  Nat.not_lt.1 fun hsmall => h.ne' (x.canonical.2.2.2 hsmall)

/-- A format with a number above the finest grid has at least one bit. -/
theorem two_pow_precision (h : f.minExponent < x.exponent) :
    2 ^ f.precision = 2 * 2 ^ (f.precision - 1) := by
  have hlt := x.canonical.1
  have hle := le_mantissa h
  have hprecision : f.precision ≠ 0 := by
    intro hzero
    rw [hzero] at hlt hle
    omega
  rw [← Nat.pow_succ', Nat.succ_eq_add_one, Nat.sub_add_cancel (Nat.pos_of_ne_zero hprecision)]

theorem two_mul_step_le (h : x.exponent < y.exponent) : 2 * x.step ≤ y.step := by
  unfold step
  rw [← zpow_one_add₀ two_ne_zero]
  exact zpow_le_zpow_right₀ one_le_two (by omega)

/-- A number on a finer grid lies, together with its step, below all numbers on a coarser one. -/
theorem magnitude_add_step_le_pow (h : x.exponent < y.exponent) :
    x.magnitude + x.step ≤ (2 ^ f.precision : ℕ) * x.step ∧
      (2 ^ f.precision : ℕ) * x.step ≤ (2 ^ (f.precision - 1) : ℕ) * y.step := by
  have hmantissa : ((x.mantissa + 1 : ℕ) : ℚ) ≤ (2 ^ f.precision : ℕ) := by
    exact_mod_cast x.canonical.1
  constructor
  · calc x.magnitude + x.step = (x.mantissa + 1 : ℕ) * x.step := by
          rw [magnitude_eq_mul_step]
          push_cast
          ring
      _ ≤ (2 ^ f.precision : ℕ) * x.step := mul_le_mul_of_nonneg_right hmantissa x.step_pos.le
  · rw [two_pow_precision (x.canonical.2.1.trans_lt h)]
    calc ((2 * 2 ^ (f.precision - 1) : ℕ) : ℚ) * x.step
        = (2 ^ (f.precision - 1) : ℕ) * (2 * x.step) := by
          push_cast
          ring
      _ ≤ (2 ^ (f.precision - 1) : ℕ) * y.step :=
          mul_le_mul_of_nonneg_left (two_mul_step_le h) (by positivity)

theorem exponent_le_of_magnitude_le (h : x.magnitude ≤ y.magnitude) : x.exponent ≤ y.exponent := by
  by_contra hlt
  rw [not_le] at hlt
  obtain ⟨hy, hx⟩ := magnitude_add_step_le_pow hlt
  have hmantissa : ((2 ^ (f.precision - 1) : ℕ) : ℚ) ≤ x.mantissa := by
    exact_mod_cast le_mantissa (y.canonical.2.1.trans_lt hlt)
  have hpow := mul_le_mul_of_nonneg_right hmantissa x.step_pos.le
  rw [← magnitude_eq_mul_step] at hpow
  linarith [y.step_pos]

/-- A magnitude is a multiple of every smaller step. -/
theorem exists_magnitude_eq (h : x.exponent ≤ y.exponent) :
    ∃ k : ℕ, y.magnitude = k * x.step := by
  obtain ⟨n, hn⟩ := Int.eq_ofNat_of_zero_le (Int.sub_nonneg.2 h)
  refine ⟨y.mantissa * 2 ^ n, ?_⟩
  unfold magnitude step
  rw [show y.exponent = n + x.exponent by omega, zpow_add₀ two_ne_zero, zpow_natCast]
  push_cast
  ring

/-- Within a format, a magnitude has one spelling. -/
theorem parts_eq_of_magnitude_eq (h : x.magnitude = y.magnitude) :
    x.mantissa = y.mantissa ∧ x.exponent = y.exponent := by
  have hexponent : x.exponent = y.exponent :=
    le_antisymm (exponent_le_of_magnitude_le h.le) (exponent_le_of_magnitude_le h.ge)
  have hstep : x.step = y.step := by rw [step, step, hexponent]
  rw [magnitude_eq_mul_step, magnitude_eq_mul_step, hstep] at h
  exact ⟨by exact_mod_cast mul_right_cancel₀ y.step_pos.ne' h, hexponent⟩

theorem eq_of_magnitude_eq (hnegative : x.negative = y.negative) (h : x.magnitude = y.magnitude) :
    x = y := by
  obtain ⟨hmantissa, hexponent⟩ := parts_eq_of_magnitude_eq h
  cases x
  cases y
  cases hnegative
  cases hexponent
  cases hmantissa
  rfl

theorem magnitude_add_step_le (h : x.magnitude < y.magnitude) : x.magnitude + x.step ≤ y.magnitude := by
  obtain ⟨k, hk⟩ := exists_magnitude_eq (exponent_le_of_magnitude_le h.le)
  rw [hk, magnitude_eq_mul_step] at h ⊢
  have hlt : x.mantissa < k := by exact_mod_cast lt_of_mul_lt_mul_right h x.step_pos.le
  have hle : (x.mantissa : ℚ) + 1 ≤ k := by exact_mod_cast hlt
  calc (x.mantissa : ℚ) * x.step + x.step = (x.mantissa + 1) * x.step := by ring
    _ ≤ k * x.step := mul_le_mul_of_nonneg_right hle x.step_pos.le

/-- Below a power of two the neighbour is on a finer grid, and only half a step away. -/
theorem magnitude_add_stepBelow_le (h : x.magnitude < y.magnitude) :
    x.magnitude + y.stepBelow ≤ y.magnitude := by
  rcases (exponent_le_of_magnitude_le h.le).lt_or_eq with hlt | heq
  · obtain ⟨hx, hy⟩ := magnitude_add_step_le_pow hlt
    have hmin := x.canonical.2.1.trans_lt hlt
    unfold stepBelow
    split
    · next hnarrow =>
      have hmantissa := (isNarrowBelow_iff.1 hnarrow).1
      have hpow : (1 : ℚ) ≤ (2 ^ f.precision : ℕ) := by exact_mod_cast Nat.one_le_two_pow
      have hprecision : ((2 ^ f.precision : ℕ) : ℚ) = 2 * (2 ^ (f.precision - 1) : ℕ) := by
        exact_mod_cast two_pow_precision hmin
      calc x.magnitude + y.step / 2
          ≤ ((2 ^ f.precision : ℕ) - 1) * x.step + y.step / 2 := by linarith
        _ ≤ ((2 ^ f.precision : ℕ) - 1) * (y.step / 2) + y.step / 2 := by
            have hstep : x.step ≤ y.step / 2 := by linarith [two_mul_step_le hlt]
            linarith [mul_le_mul_of_nonneg_left hstep (sub_nonneg.2 hpow)]
        _ = y.magnitude := by
            rw [magnitude_eq_mul_step, hmantissa, hprecision]
            ring
    · next hwide =>
      have hne : y.mantissa ≠ 2 ^ (f.precision - 1) := fun heq =>
        hwide (isNarrowBelow_iff.2 ⟨heq, hmin⟩)
      have hmantissa : ((2 ^ (f.precision - 1) + 1 : ℕ) : ℚ) ≤ y.mantissa := by
        exact_mod_cast lt_of_le_of_ne (le_mantissa hmin) hne.symm
      have hmul := mul_le_mul_of_nonneg_right hmantissa y.step_pos.le
      rw [← magnitude_eq_mul_step] at hmul
      push_cast at hmul hx hy
      linarith [x.step_pos]
  · have hstep : x.step = y.step := by rw [step, step, heq]
    linarith [magnitude_add_step_le h, y.stepBelow_le]

/-- Of two neighbours one has an odd mantissa. -/
theorem odd_of_neighbours (habove : x.magnitude + x.step = y.magnitude)
    (hbelow : x.magnitude + y.stepBelow = y.magnitude) :
    x.mantissa % 2 = 1 ∨ y.mantissa % 2 = 1 := by
  have hlt : x.magnitude < y.magnitude := by linarith [x.step_pos]
  rcases (exponent_le_of_magnitude_le hlt.le).lt_or_eq with hfiner | heq
  · -- The larger one is a power of two, so the mantissa of the smaller one has all bits set.
    obtain ⟨hx, hy⟩ := magnitude_add_step_le_pow hfiner
    have hmin := x.canonical.2.1.trans_lt hfiner
    have hnarrow : y.isNarrowBelow := by
      by_contra hwide
      rw [stepBelow, if_neg hwide] at hbelow
      linarith [two_mul_step_le hfiner, x.step_pos]
    rw [magnitude_eq_mul_step y, (isNarrowBelow_iff.1 hnarrow).1] at habove
    have hmul : ((x.mantissa + 1 : ℕ) : ℚ) * x.step = (2 ^ f.precision : ℕ) * x.step := by
      rw [magnitude_eq_mul_step] at habove hx
      push_cast at habove hx hy ⊢
      linarith
    have hmantissa : x.mantissa + 1 = 2 ^ f.precision := by
      exact_mod_cast mul_right_cancel₀ x.step_pos.ne' hmul
    have hprecision := two_pow_precision hmin
    omega
  · have hstep : x.step = y.step := by rw [step, step, heq]
    have hmul : ((x.mantissa + 1 : ℕ) : ℚ) * y.step = y.mantissa * y.step := by
      rw [magnitude_eq_mul_step, magnitude_eq_mul_step, hstep] at habove
      push_cast
      linarith
    have hmantissa : x.mantissa + 1 = y.mantissa := by
      exact_mod_cast mul_right_cancel₀ y.step_pos.ne' hmul
    omega

/-! ### What is rounded to a number -/

/-- The quotient `q` is rounded to the magnitude of `x`: it is no further away than the points halfway
to the neighbours, and on one of these only if the mantissa is even. -/
structure IsRoundingOf (x : Binary f) (q : ℚ) : Prop where
  lower : x.magnitude - x.stepBelow / 2 ≤ q
  upper : q ≤ x.magnitude + x.step / 2
  even_of_lower : q = x.magnitude - x.stepBelow / 2 → x.mantissa % 2 = 0
  even_of_upper : q = x.magnitude + x.step / 2 → x.mantissa % 2 = 0

/-- What lies strictly between the two halfway points is rounded to the number. -/
theorem isRoundingOf_of_lt (hlower : x.magnitude - x.stepBelow / 2 < q)
    (hupper : q < x.magnitude + x.step / 2) : x.IsRoundingOf q :=
  ⟨hlower.le, hupper.le, fun h => absurd h hlower.ne', fun h => absurd h hupper.ne⟩

/-- What is nearer to a number than half the step below it is rounded to the number. -/
theorem isRoundingOf_of_abs_sub_lt (h : |q - x.magnitude| < x.stepBelow / 2) : x.IsRoundingOf q := by
  obtain ⟨hlower, hupper⟩ := abs_sub_lt_iff.1 h
  exact isRoundingOf_of_lt (by linarith) (by linarith [x.stepBelow_le])

theorem isRoundingOf_magnitude (x : Binary f) : x.IsRoundingOf x.magnitude :=
  isRoundingOf_of_lt (by linarith [x.stepBelow_pos]) (by linarith [x.step_pos])

namespace IsRoundingOf

/-- The intervals of two numbers are in the order of their magnitudes. -/
theorem lt (hx : x.IsRoundingOf q) (hy : y.IsRoundingOf r) (h : x.magnitude < y.magnitude) :
    q < r := by
  have habove := magnitude_add_step_le h
  have hbelow := magnitude_add_stepBelow_le h
  by_contra hge
  rw [not_lt] at hge
  -- Otherwise both are the point halfway between two neighbours, which both have even mantissas.
  have hupper : q = x.magnitude + x.step / 2 := by linarith [hx.upper, hy.lower]
  have hlower : r = y.magnitude - y.stepBelow / 2 := by linarith [hx.upper, hy.lower]
  have hxeven := hx.even_of_upper hupper
  have hyeven := hy.even_of_lower hlower
  have hodd := odd_of_neighbours (x := x) (y := y) (by linarith) (by linarith)
  omega

theorem magnitude_le (hx : x.IsRoundingOf q) (hy : y.IsRoundingOf r) (h : q ≤ r) :
    x.magnitude ≤ y.magnitude :=
  le_of_not_gt fun hlt => absurd h (not_le_of_gt (hy.lt hx hlt))

theorem magnitude_eq (hx : x.IsRoundingOf q) (hy : y.IsRoundingOf q) : x.magnitude = y.magnitude :=
  le_antisymm (hx.magnitude_le hy le_rfl) (hy.magnitude_le hx le_rfl)

/-- What lies between two quotients that are rounded to `x` is rounded to `x` as well. -/
theorem between {p : ℚ} (hq : x.IsRoundingOf q) (hr : x.IsRoundingOf r) (hqp : q ≤ p) (hpr : p ≤ r) :
    x.IsRoundingOf p where
  lower := hq.lower.trans hqp
  upper := hpr.trans hr.upper
  even_of_lower h := hq.even_of_lower (le_antisymm (h ▸ hqp) hq.lower)
  even_of_upper h := hr.even_of_upper (le_antisymm hr.upper (h ▸ hpr))

theorem abs_sub_le_step (h : x.IsRoundingOf q) : |x.magnitude - q| ≤ x.step / 2 := by
  rw [abs_sub_le_iff]
  constructor
  · linarith [h.lower, x.stepBelow_le]
  · linarith [h.upper]

/-- A quotient that is not past a power of two is rounded by at most half the step below this power. -/
theorem abs_sub_le_stepBelow (h : x.IsRoundingOf q) (hy : y.isNarrowBelow)
    (hq : q ≤ y.magnitude) : |x.magnitude - q| ≤ y.stepBelow / 2 := by
  obtain ⟨hmantissa, hmin⟩ := isNarrowBelow_iff.1 hy
  rcases (h.magnitude_le y.isRoundingOf_magnitude hq).lt_or_eq with hlt | heq
  · have hexponent : x.exponent < y.exponent := by
      refine lt_of_le_of_ne (exponent_le_of_magnitude_le hlt.le) fun hsame => ?_
      have hstep : x.step = y.step := by rw [step, step, hsame]
      rw [magnitude_eq_mul_step, magnitude_eq_mul_step, hstep] at hlt
      have hless : x.mantissa < y.mantissa := by
        exact_mod_cast lt_of_mul_lt_mul_right hlt y.step_pos.le
      have hfull := le_mantissa (hsame ▸ hmin : f.minExponent < x.exponent)
      omega
    calc |x.magnitude - q| ≤ x.step / 2 := h.abs_sub_le_step
      _ ≤ y.stepBelow / 2 := by
        rw [stepBelow, if_pos hy]
        linarith [two_mul_step_le hexponent]
  · obtain ⟨hsame, hexponent⟩ := parts_eq_of_magnitude_eq heq
    have hx : x.isNarrowBelow := isNarrowBelow_iff.2 ⟨hsame.trans hmantissa, hexponent ▸ hmin⟩
    have hbelow : x.stepBelow = y.stepBelow := by
      rw [stepBelow, stepBelow, if_pos hx, if_pos hy, step, step, hexponent]
    rw [← hbelow, abs_of_nonneg (by linarith)]
    linarith [h.lower]

theorem mantissa_eq_zero (h : x.IsRoundingOf q) (hq : q = 0) : x.mantissa = 0 := by
  have hlower := h.lower
  rw [magnitude_eq_mul_step, hq] at hlower
  by_contra hne
  have hone : (1 : ℚ) ≤ x.mantissa := by exact_mod_cast Nat.one_le_iff_ne_zero.2 hne
  linarith [mul_le_mul_of_nonneg_right hone x.step_pos.le, x.stepBelow_le, x.step_pos]

/-- A number is nearest to all that is rounded to it. -/
theorem abs_sub_le (h : x.IsRoundingOf q) (y : Binary f) :
    |x.magnitude - q| ≤ |y.magnitude - q| := by
  rcases lt_trichotomy x.magnitude y.magnitude with hlt | heq | hgt
  · have hstep := magnitude_add_step_le hlt
    calc |x.magnitude - q| ≤ y.magnitude - q := by
          rw [abs_sub_le_iff]
          constructor <;> linarith [h.upper]
      _ ≤ |y.magnitude - q| := le_abs_self _
  · rw [heq]
  · have hstep := magnitude_add_stepBelow_le hgt
    calc |x.magnitude - q| ≤ -(y.magnitude - q) := by
          rw [abs_sub_le_iff]
          constructor <;> linarith [h.lower]
      _ ≤ |y.magnitude - q| := neg_le_abs _

/-- When another number is as near, the mantissa is even. -/
theorem even_of_abs_sub_eq (h : x.IsRoundingOf q) (hne : y.magnitude ≠ x.magnitude)
    (heq : |y.magnitude - q| = |x.magnitude - q|) : x.mantissa % 2 = 0 := by
  rcases lt_or_gt_of_ne hne with hlt | hgt
  · have hstep := magnitude_add_stepBelow_le hlt
    rw [abs_eq_abs] at heq
    refine h.even_of_lower ?_
    rcases heq with heq | heq <;> linarith [h.lower]
  · have hstep := magnitude_add_step_le hgt
    rw [abs_eq_abs] at heq
    refine h.even_of_upper ?_
    rcases heq with heq | heq <;> linarith [h.upper]

end IsRoundingOf

/-! ### Nearest numbers -/

/-- The rational number with this sign and magnitude. -/
def signed (negative : Bool) (q : ℚ) : ℚ := if negative then -q else q

theorem signed_false (q : ℚ) : signed false q = q := rfl

theorem signed_true (q : ℚ) : signed true q = -q := rfl

theorem value_eq_signed (x : Binary f) : x.value = signed x.negative x.magnitude := rfl

theorem abs_signed (negative : Bool) (hq : 0 ≤ q) : |signed negative q| = q := by
  unfold signed
  split
  · rw [abs_neg, abs_of_nonneg hq]
  · rw [abs_of_nonneg hq]

theorem abs_value (x : Binary f) : |x.value| = x.magnitude := abs_signed _ x.magnitude_nonneg

theorem abs_signed_sub_signed (negative : Bool) (q r : ℚ) :
    |signed negative q - signed negative r| = |q - r| := by
  unfold signed
  split
  · rw [neg_sub_neg, abs_sub_comm]
  · rfl

/-- No number of the format is nearer to `q` than `x`, and if another one is as near, `x` is the one with
the even mantissa. -/
structure IsNearest (x : Binary f) (q : ℚ) : Prop where
  abs_sub_le (y : Binary f) : |x.value - q| ≤ |y.value - q|
  even (y : Binary f) : y.value ≠ x.value → |y.value - q| = |x.value - q| → x.mantissa % 2 = 0

/-- The number to which a quotient is rounded is nearest to it, under either sign. -/
theorem IsRoundingOf.isNearest (h : x.IsRoundingOf q) (hq : 0 ≤ q) :
    x.IsNearest (signed x.negative q) := by
  have hx : |x.value - signed x.negative q| = |x.magnitude - q| := abs_signed_sub_signed _ _ _
  have hy : ∀ y : Binary f, |y.magnitude - q| ≤ |y.value - signed x.negative q| := by
    intro y
    have habs := abs_abs_sub_abs_le y.value (signed x.negative q)
    rwa [abs_value, abs_signed _ hq] at habs
  refine ⟨fun y => hx ▸ (h.abs_sub_le y).trans (hy y), fun y hne heq => ?_⟩
  rw [hx] at heq
  by_cases hmagnitude : y.magnitude = x.magnitude
  · -- Only the sign differs, and only from zero are the two equally far away.
    have hzero : signed x.negative q = 0 := by
      rw [← abs_value, ← abs_value, abs_eq_abs] at hmagnitude
      rw [← hx, abs_eq_abs] at heq
      rcases hmagnitude, heq with ⟨hvalue | hvalue, hdistance | hdistance⟩
      · exact absurd hvalue hne
      · exact absurd hvalue hne
      · exact absurd (sub_left_inj.1 hdistance) hne
      · linarith
    rw [h.mantissa_eq_zero (by rw [← abs_signed x.negative hq, hzero, abs_zero])]
  · exact h.even_of_abs_sub_eq hmagnitude
      (le_antisymm ((hy y).trans heq.le) (h.abs_sub_le y))

end Binary

end LootTables
