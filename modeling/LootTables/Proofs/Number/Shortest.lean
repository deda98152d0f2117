import Mathlib.Data.Nat.Cast.Order.Field
import LootTables.Proofs.Number.Reading

/-!
# The shortest decimal of a double

Printing a double gives a decimal that is read back as this double, with the fewest digits of all such
decimals; of those with as many digits it is the nearest one, and at a tie the one with even digits
(`Binary.isShortest_shortest`). This leaves one value only (`Binary.IsShortest.value_eq`).

The search goes from coarse to fine grids of powers of ten. What reads back to `x` is an interval around
`x`, so on each grid one of the two neighbours of `x` is best if any point is (`nearestOnGrid?_cases`). A
decimal with few digits may still lie on a finer grid, below the power of ten with which the digits of `x`
begin, but then this power is nearer (`exists_onGrid`). On the grid of seventeen digits a point always
reads back, since it is finer than the distance between doubles (`exists_seventeen`).

The one case where the grid and the digits disagree is a power of ten: on the grid of one digit it is the
even number ten, but its digit is one. It would be a wrong choice halfway between nine and ten, and no
double lies there (`not_halfway_nine_ten`).
-/

namespace LootTables

-- A power is that of the natural numbers, also where a more general one is known.
attribute [local instance (high)] instPowNat

/-- The integer part of a quotient. -/
theorem div_bounds (num : ℕ) {den : ℕ} (hden : 0 < den) :
    ((num / den : ℕ) : ℚ) ≤ num / den ∧ (num : ℚ) / den < (num / den : ℕ) + 1 := by
  have hpos : (0 : ℚ) < den := by exact_mod_cast hden
  refine ⟨Nat.cast_div_le, ?_⟩
  rw [div_lt_iff₀ hpos, mul_comm]
  exact_mod_cast Nat.lt_mul_div_succ num hden

/-- The first success in a row of attempts comes after failures only. -/
theorem findSome?_range_eq_some {α : Type} {attempt : ℕ → Option α} {a : α} {n : ℕ}
    (h : (List.range n).findSome? attempt = some a) :
    ∃ k < n, attempt k = some a ∧ ∀ j < k, attempt j = none := by
  induction n with
  | zero => cases h
  | succ n ih =>
    rw [List.range_succ, List.findSome?_append] at h
    cases hn : (List.range n).findSome? attempt with
    | some b =>
      rw [hn, Option.some_or] at h
      obtain ⟨k, hk, hfirst⟩ := ih (hn.trans h)
      exact ⟨k, Nat.lt_succ_of_lt hk, hfirst⟩
    | none =>
      rw [hn, Option.none_or, List.findSome?_singleton] at h
      exact ⟨n, Nat.lt_succ_self n, h, fun j hj => List.findSome?_eq_none_iff.1 hn j (List.mem_range.2 hj)⟩

namespace Decimal

theorem value_dropZeros (limit : ℕ) (d : Decimal) : (d.dropZeros limit).value = d.value := by
  induction limit generalizing d with
  | zero => rfl
  | succ limit ih =>
    unfold dropZeros
    split
    · next h =>
      have hdigits : (d.digits : ℚ) = (d.digits / 10 : ℕ) * 10 := by
        exact_mod_cast (Nat.div_mul_cancel (Nat.dvd_of_mod_eq_zero h.2)).symm
      rw [ih]
      unfold value
      rw [hdigits, zpow_add_one₀ (by norm_num)]
      ring
    · rfl

theorem dropZeros_of_mod_ne_zero {d : Decimal} (h : d.digits % 10 ≠ 0) (limit : ℕ) :
    d.dropZeros limit = d := by
  cases limit with
  | zero => rfl
  | succ limit => exact if_neg fun hzero => h hzero.2

theorem dropZeros_ten (e : ℤ) : (Decimal.mk 10 e).dropZeros (digitCount 10) = ⟨1, e + 1⟩ := by
  obtain ⟨limit, hlimit⟩ := Nat.exists_eq_succ_of_ne_zero (digitCount_pos 10).ne'
  have hone : (Decimal.mk 1 (e + 1)).digits % 10 ≠ 0 := Nat.one_ne_zero
  rw [hlimit, dropZeros, if_pos (by norm_num)]
  simpa using dropZeros_of_mod_ne_zero hone limit

end Decimal

theorem digitCount_one : digitCount 1 = 1 :=
  Nat.le_antisymm ((digitCount_le_iff one_pos).2 (by norm_num)) (digitCount_pos 1)

/-- A number of at most `10 ^ n` that does not end in a zero has `n` digits if it has not fewer. -/
theorem digitCount_of_bounds {n k : ℕ} (hn : 0 < n) (hlow : 10 ^ (n - 1) ≤ k) (hhigh : k ≤ 10 ^ n)
    (hlast : k % 10 ≠ 0) : digitCount k = n := by
  have hne : k ≠ 10 ^ n := by
    rintro rfl
    exact hlast (Nat.mod_eq_zero_of_dvd (dvd_pow_self 10 hn.ne'))
  have hle := (digitCount_le_iff hn).2 (lt_of_le_of_ne hhigh hne)
  rcases Nat.eq_zero_or_pos (n - 1) with hzero | hmore
  · have hone := digitCount_pos k
    omega
  · have hge := mt (digitCount_le_iff hmore).1 (Nat.not_lt.2 hlow)
    omega

namespace Binary

/-! ### The size of a quotient in digits -/

theorem decimalScale_spec {num den : ℕ} (hnum : 0 < num) (hden : 0 < den) :
    (10 : ℚ) ^ (decimalScale num den - 1) ≤ num / den ∧ (num : ℚ) / den < 10 ^ decimalScale num den := by
  have hnumpos : (0 : ℚ) < num := by exact_mod_cast hnum
  have hdenpos : (0 : ℚ) < den := by exact_mod_cast hden
  unfold decimalScale
  split
  · next h =>
    have hone : 1 ≤ num / den := (Nat.one_le_div_iff hden).2 h
    obtain ⟨hfloor, hceil⟩ := div_bounds num hden
    have hlow : (10 : ℚ) ^ (digitCount (num / den) - 1) ≤ (num / den : ℕ) := by
      exact_mod_cast pow_digitCount_le (by omega)
    have hhigh : ((num / den : ℕ) : ℚ) + 1 ≤ 10 ^ digitCount (num / den) := by
      exact_mod_cast lt_pow_digitCount (num / den)
    rw [← Nat.cast_pred (digitCount_pos _), zpow_natCast, zpow_natCast]
    exact ⟨hlow.trans hfloor, hceil.trans_le hhigh⟩
  · next h =>
    -- Below one, the scale comes from how often the numerator goes into the denominator.
    generalize hr : (den - 1) / num = r
    have hone : 1 ≤ r := hr ▸ (Nat.one_le_div_iff hnum).2 (by omega)
    have hfloor : num * r ≤ den - 1 := hr ▸ Nat.mul_div_le (den - 1) num
    have hceil : den - 1 < num * (r + 1) := hr ▸ Nat.lt_mul_div_succ (den - 1) hnum
    have hlow : num * 10 ^ (digitCount r - 1) < den := by
      have hmul := Nat.mul_le_mul_left num (pow_digitCount_le (by omega : r ≠ 0))
      omega
    have hhigh : den ≤ num * 10 ^ digitCount r := by
      have hmul : num * (r + 1) ≤ num * 10 ^ digitCount r :=
        Nat.mul_le_mul_left num (lt_pow_digitCount r)
      omega
    have hscale : (1 : ℤ) - digitCount r = -((digitCount r - 1 : ℕ) : ℤ) := by
      have hpos := digitCount_pos r
      omega
    rw [sub_sub_cancel_left, hscale, zpow_neg, zpow_neg, zpow_natCast, zpow_natCast]
    constructor
    · rw [inv_le_comm₀ (by positivity) (by positivity), inv_div, div_le_iff₀ hnumpos, mul_comm]
      exact_mod_cast hhigh
    · rw [lt_inv_comm₀ (by positivity) (by positivity), inv_div, lt_div_iff₀ hnumpos, mul_comm]
      exact_mod_cast hlow

/-! ### One grid -/

section

variable {f : BinaryFormat} {x : Binary f} {e : ℤ} {d : Decimal}

/-- The point of the grid of multiples of `10 ^ e` that is not above `x`. -/
def gridFloor (x : Binary f) (e : ℤ) : ℕ :=
  x.numerator * 10 ^ (-e).toNat / (x.denominator * 10 ^ e.toNat)

theorem scaledTen_pos (x : Binary f) (e : ℤ) : 0 < x.denominator * 10 ^ e.toNat :=
  Nat.mul_pos x.denominator_pos (Nat.pow_pos (by decide))

theorem scaledTen_div (x : Binary f) (e : ℤ) :
    ((x.numerator * 10 ^ (-e).toNat : ℕ) : ℚ) / (x.denominator * 10 ^ e.toNat : ℕ) =
      x.magnitude / 10 ^ e := by
  have hden : (0 : ℚ) < x.denominator := by exact_mod_cast x.denominator_pos
  rw [magnitude_eq_div, zpow_eq_div 10 e]
  push_cast
  field_simp

/-- The point of the grid that is nearest to `x`. -/
def gridNearest (x : Binary f) (e : ℤ) : ℕ :=
  roundEven (x.numerator * 10 ^ (-e).toNat) (x.denominator * 10 ^ e.toNat)

theorem gridNearest_isNearest (x : Binary f) (e : ℤ) :
    IsNearestInteger (x.gridNearest e) (x.magnitude / 10 ^ e) := by
  rw [← scaledTen_div]
  exact roundEven_isNearest _ (x.scaledTen_pos e)

theorem gridFloor_mul_le (x : Binary f) (e : ℤ) :
    x.gridFloor e * (10 : ℚ) ^ e ≤ x.magnitude ∧ x.magnitude < (x.gridFloor e + 1 : ℕ) * 10 ^ e := by
  obtain ⟨hfloor, hceil⟩ := div_bounds (x.numerator * 10 ^ (-e).toNat) (x.scaledTen_pos e)
  rw [scaledTen_div] at hfloor hceil
  push_cast
  exact ⟨(le_div_iff₀ (by positivity)).1 hfloor, (div_lt_iff₀ (by positivity)).1 hceil⟩

/-- `k` is, among the points of the grid that read back to `x`, the nearest to `x`, of two equally near
ones the even one. -/
structure IsBestOnGrid (x : Binary f) (e : ℤ) (k : ℕ) : Prop where
  reads : x.IsRoundingOf (k * 10 ^ e)
  neighbour : k = x.gridFloor e ∨ k = x.gridFloor e + 1
  nearest : ∀ j : ℕ, x.IsRoundingOf (j * 10 ^ e) →
    |k * (10 : ℚ) ^ e - x.magnitude| ≤ |j * (10 : ℚ) ^ e - x.magnitude|
  even : ∀ j : ℕ, x.IsRoundingOf (j * 10 ^ e) → j ≠ k →
    |j * (10 : ℚ) ^ e - x.magnitude| = |k * (10 : ℚ) ^ e - x.magnitude| → k % 2 = 0

/-- If a point of the grid reads back, then so does one of the two around `x`, which lie between it and
`x`. -/
theorem IsRoundingOf.gridFloor {j : ℕ} (h : x.IsRoundingOf (j * 10 ^ e)) :
    j ≤ x.gridFloor e ∧ x.IsRoundingOf (x.gridFloor e * 10 ^ e) ∨
      x.gridFloor e + 1 ≤ j ∧ x.IsRoundingOf ((x.gridFloor e + 1 : ℕ) * 10 ^ e) := by
  have hpos : (0 : ℚ) < 10 ^ e := by positivity
  obtain ⟨hfloor, hceil⟩ := x.gridFloor_mul_le e
  rcases Nat.lt_or_ge (x.gridFloor e) j with hlt | hle
  · have hj : ((x.gridFloor e + 1 : ℕ) : ℚ) ≤ j := by exact_mod_cast hlt
    exact .inr ⟨hlt, x.isRoundingOf_magnitude.between h hceil.le
      (mul_le_mul_of_nonneg_right hj hpos.le)⟩
  · have hj : (j : ℚ) ≤ x.gridFloor e := by exact_mod_cast hle
    exact .inl ⟨hle, h.between x.isRoundingOf_magnitude
      (mul_le_mul_of_nonneg_right hj hpos.le) hfloor⟩

/-- When both of them read back, the nearer one is taken. -/
theorem isBestOnGrid_gridNearest (hbelow : x.IsRoundingOf (x.gridFloor e * 10 ^ e))
    (habove : x.IsRoundingOf ((x.gridFloor e + 1 : ℕ) * 10 ^ e)) :
    x.IsBestOnGrid e (x.gridNearest e) := by
  have hpos : (0 : ℚ) < 10 ^ e := by positivity
  obtain ⟨hfloor, hceil⟩ := x.gridFloor_mul_le e
  have hnear := x.gridNearest_isNearest e
  generalize x.gridNearest e = k at hnear ⊢
  have hneighbour : k = x.gridFloor e ∨ k = x.gridFloor e + 1 := by
    have hle := hnear.le_of_le ((le_div_iff₀ hpos).2 hfloor)
    have hge := hnear.le_of_ge ((div_le_iff₀ hpos).2 hceil.le)
    omega
  have hscaled : ∀ j : ℕ, |j * (10 : ℚ) ^ e - x.magnitude| = |j - x.magnitude / 10 ^ e| * 10 ^ e := by
    intro j
    rw [← abs_of_pos hpos, ← abs_mul, abs_of_pos hpos, sub_mul, div_mul_cancel₀ _ hpos.ne']
  refine ⟨?_, hneighbour, fun j _ => ?_, fun j _ hne heq => ?_⟩
  · rcases hneighbour with rfl | rfl
    · exact hbelow
    · exact habove
  · rw [hscaled, hscaled]
    exact mul_le_mul_of_nonneg_right (hnear.abs_sub_le_abs_sub j) hpos.le
  · rw [hscaled, hscaled] at heq
    exact hnear.even_of_abs_sub_eq hne (mul_right_cancel₀ hpos.ne' heq)

theorem isBestOnGrid_gridFloor (hbelow : x.IsRoundingOf (x.gridFloor e * 10 ^ e))
    (habove : ¬ x.IsRoundingOf ((x.gridFloor e + 1 : ℕ) * 10 ^ e)) :
    x.IsBestOnGrid e (x.gridFloor e) := by
  have hpos : (0 : ℚ) < 10 ^ e := by positivity
  obtain ⟨hfloor, -⟩ := x.gridFloor_mul_le e
  have hle : ∀ j : ℕ, x.IsRoundingOf (j * 10 ^ e) → (j : ℚ) * 10 ^ e ≤ x.gridFloor e * 10 ^ e := by
    intro j hj
    rcases hj.gridFloor with ⟨hle, -⟩ | ⟨-, hreads⟩
    · exact mul_le_mul_of_nonneg_right (by exact_mod_cast hle) hpos.le
    · exact absurd hreads habove
  refine ⟨hbelow, .inl rfl, fun j hj => ?_, fun j hj hne heq => absurd ?_ hne⟩
  · rw [abs_of_nonpos (by linarith), abs_of_nonpos (by linarith [hle j hj])]
    linarith [hle j hj]
  · rw [abs_of_nonpos (by linarith [hle j hj]), abs_of_nonpos (by linarith)] at heq
    exact_mod_cast mul_right_cancel₀ hpos.ne' (by linarith : (j : ℚ) * 10 ^ e = x.gridFloor e * 10 ^ e)

theorem isBestOnGrid_gridFloor_add_one (hbelow : ¬ x.IsRoundingOf (x.gridFloor e * 10 ^ e))
    (habove : x.IsRoundingOf ((x.gridFloor e + 1 : ℕ) * 10 ^ e)) :
    x.IsBestOnGrid e (x.gridFloor e + 1) := by
  have hpos : (0 : ℚ) < 10 ^ e := by positivity
  obtain ⟨-, hceil⟩ := x.gridFloor_mul_le e
  have hge : ∀ j : ℕ, x.IsRoundingOf (j * 10 ^ e) →
      ((x.gridFloor e + 1 : ℕ) : ℚ) * 10 ^ e ≤ j * 10 ^ e := by
    intro j hj
    rcases hj.gridFloor with ⟨-, hreads⟩ | ⟨hge, -⟩
    · exact absurd hreads hbelow
    · exact mul_le_mul_of_nonneg_right (by exact_mod_cast hge) hpos.le
  refine ⟨habove, .inr rfl, fun j hj => ?_, fun j hj hne heq => absurd ?_ hne⟩
  · rw [abs_of_nonneg (by linarith), abs_of_nonneg (by linarith [hge j hj])]
    linarith [hge j hj]
  · rw [abs_of_nonneg (by linarith [hge j hj]), abs_of_nonneg (by linarith)] at heq
    exact_mod_cast mul_right_cancel₀ hpos.ne'
      (by linarith : (j : ℚ) * 10 ^ e = (x.gridFloor e + 1 : ℕ) * 10 ^ e)

/-- The search on a grid finds the best point that reads back, if there is any. -/
theorem nearestOnGrid?_cases (hx : x.mantissa ≠ 0) (e : ℤ) :
    (∃ k, x.nearestOnGrid? e = some ⟨k, e⟩ ∧ x.IsBestOnGrid e k) ∨
      x.nearestOnGrid? e = none ∧ ∀ j : ℕ, ¬ x.IsRoundingOf (j * 10 ^ e) := by
  have hbelow : x.readsBack ⟨x.gridFloor e, e⟩ ↔ x.IsRoundingOf (x.gridFloor e * 10 ^ e) :=
    readsBack_iff hx
  have habove : x.readsBack ⟨x.gridFloor e + 1, e⟩ ↔
      x.IsRoundingOf ((x.gridFloor e + 1 : ℕ) * 10 ^ e) := readsBack_iff hx
  have hnotBelow := fun h => mt hbelow.2 (Bool.eq_false_iff.1 h)
  have hnotAbove := fun h => mt habove.2 (Bool.eq_false_iff.1 h)
  unfold nearestOnGrid?
  dsimp only
  split
  · next h h' => exact .inl ⟨_, rfl, isBestOnGrid_gridNearest (hbelow.1 h) (habove.1 h')⟩
  · next h h' => exact .inl ⟨_, rfl, isBestOnGrid_gridFloor (hbelow.1 h) (hnotAbove h')⟩
  · next h h' => exact .inl ⟨_, rfl, isBestOnGrid_gridFloor_add_one (hnotBelow h) (habove.1 h')⟩
  · next h h' =>
    refine .inr ⟨rfl, fun j hj => ?_⟩
    rcases hj.gridFloor with ⟨-, hreads⟩ | ⟨-, hreads⟩
    · exact hnotBelow h hreads
    · exact hnotAbove h' hreads

end

/-! ### Enough digits -/

section

variable {x : Binary binary64}

theorem scale_spec (hx : x.mantissa ≠ 0) :
    (10 : ℚ) ^ (decimalScale x.numerator x.denominator - 1) ≤ x.magnitude ∧
      x.magnitude < 10 ^ decimalScale x.numerator x.denominator := by
  rw [magnitude_eq_div]
  exact decimalScale_spec (Nat.mul_pos (Nat.pos_of_ne_zero hx) (Nat.two_pow_pos _)) x.denominator_pos

/-- With seventeen digits the grid is finer than the distance between doubles, so that one of its points
reads back. -/
theorem exists_seventeen (hx : x.mantissa ≠ 0) :
    ∃ j : ℕ, x.IsRoundingOf (j * 10 ^ (decimalScale x.numerator x.denominator - 17)) := by
  obtain ⟨hscale, -⟩ := scale_spec hx
  generalize decimalScale x.numerator x.denominator = scale at hscale ⊢
  have hpos : (0 : ℚ) < 10 ^ (scale - 17) := by positivity
  have hgrid : (10 : ℚ) ^ (scale - 17) * 10 ^ 16 ≤ x.mantissa * x.step := by
    rw [← zpow_natCast, ← zpow_add₀ (by norm_num), ← magnitude_eq_mul_step,
      show scale - 17 + (16 : ℕ) = scale - 1 by omega]
    exact hscale
  have hfine : (10 : ℚ) ^ (scale - 17) < x.stepBelow := by
    have hstep := x.step_pos
    unfold stepBelow
    split
    · next hnarrow =>
      rw [(isNarrowBelow_iff.1 hnarrow).1] at hgrid
      push_cast at hgrid
      linarith
    · have hmantissa : (x.mantissa : ℚ) ≤ 2 ^ 53 := by exact_mod_cast x.canonical.1.le
      have hmul := mul_le_mul_of_nonneg_right hmantissa hstep.le
      linarith
  obtain ⟨hlower, hupper, -⟩ := (x.gridNearest_isNearest (scale - 17)).mul hpos
  rw [div_mul_cancel₀ _ hpos.ne'] at hlower hupper
  exact ⟨x.gridNearest (scale - 17), isRoundingOf_of_lt (by linarith) (by linarith [x.stepBelow_le])⟩

/-! ### The search -/

/-- The search stops at the coarsest grid with a point that reads back. -/
theorem shortest_search (hx : x.mantissa ≠ 0) :
    ∃ n k : ℕ, 0 < n ∧ x.IsBestOnGrid (decimalScale x.numerator x.denominator - n) k ∧
      x.shortest = (Decimal.mk k (decimalScale x.numerator x.denominator - n)).dropZeros (digitCount k) ∧
      ∀ c : ℕ, 0 < c → c < n →
        ∀ j : ℕ, ¬ x.IsRoundingOf (j * 10 ^ (decimalScale x.numerator x.denominator - c)) := by
  unfold shortest
  rw [if_neg hx]
  dsimp only
  generalize hscale : decimalScale x.numerator x.denominator = scale
  cases hfound : (List.range 17).findSome? fun (n : ℕ) => x.nearestOnGrid? (scale - (n + 1)) with
  | none =>
    obtain ⟨j, hj⟩ := exists_seventeen hx
    have hnone := List.findSome?_eq_none_iff.1 hfound 16 (by decide)
    rcases nearestOnGrid?_cases hx (scale - 17) with ⟨k, hk, -⟩ | ⟨-, hnot⟩
    · cases hnone.symm.trans hk
    · exact absurd (hscale ▸ hj) (hnot j)
  | some d =>
    obtain ⟨n, -, hn, hcoarser⟩ := findSome?_range_eq_some hfound
    rcases nearestOnGrid?_cases hx (scale - (n + 1)) with ⟨k, hk, hbest⟩ | ⟨hnone, -⟩
    · cases hn.symm.trans hk
      refine ⟨n + 1, k, Nat.succ_pos n, by exact_mod_cast hbest, by push_cast; rfl, fun c hc hcn => ?_⟩
      obtain ⟨c, rfl⟩ := Nat.exists_eq_succ_of_ne_zero hc.ne'
      rcases nearestOnGrid?_cases hx (scale - (c + 1)) with ⟨k', hk', -⟩ | ⟨-, hnot⟩
      · cases (hcoarser c (by omega)).symm.trans hk'
      · exact_mod_cast hnot
    · cases hn.symm.trans hnone

/-- A decimal with at most `c` digits that reads back is on the grid of `c` digits, or there is a nearer
point on this grid. -/
theorem exists_onGrid {scale : ℤ} {c : ℕ} {d : Decimal} (hscale : (10 : ℚ) ^ (scale - 1) ≤ x.magnitude)
    (hc : 0 < c) (hd : x.IsRoundingOf d.value) (hcount : digitCount d.digits ≤ c) :
    ∃ j : ℕ, x.IsRoundingOf (j * 10 ^ (scale - c)) ∧
      (d.value = j * 10 ^ (scale - c) ∨
        |j * (10 : ℚ) ^ (scale - c) - x.magnitude| < |d.value - x.magnitude|) := by
  rcases le_or_gt (scale - c) d.exponent with hle | hgt
  · obtain ⟨n, hn⟩ := Int.eq_ofNat_of_zero_le (Int.sub_nonneg.2 hle)
    have hvalue : d.value = (d.digits * 10 ^ n : ℕ) * 10 ^ (scale - c) := by
      unfold Decimal.value
      rw [show d.exponent = n + (scale - c) by omega, zpow_add₀ (by norm_num), zpow_natCast]
      push_cast
      ring
    exact ⟨_, hvalue ▸ hd, .inl hvalue⟩
  · -- The decimal lies below the power of ten with which the digits of `x` begin.
    have hlt : d.value < 10 ^ (scale - 1) :=
      d.value_lt.trans_le (zpow_le_zpow_right₀ (by norm_num) (by omega))
    have hpow : ((10 ^ (c - 1) : ℕ) : ℚ) * 10 ^ (scale - c) = 10 ^ (scale - 1) := by
      push_cast
      rw [← zpow_natCast, ← zpow_add₀ (by norm_num)]
      congr 1
      omega
    refine ⟨10 ^ (c - 1), hpow ▸ hd.between x.isRoundingOf_magnitude hlt.le hscale, .inr ?_⟩
    rw [hpow, abs_of_nonpos (by linarith), abs_of_nonpos (by linarith)]
    linarith

/-- No double lies halfway between nine and ten steps of a grid if ten of them read back: its mantissa
would be a multiple of nineteen, but less than ten. -/
theorem not_halfway_nine_ten {e : ℤ} (hx : x.mantissa ≠ 0) (hten : x.IsRoundingOf (10 * 10 ^ e)) :
    2 * x.magnitude ≠ 19 * 10 ^ e := by
  intro hhalf
  have hpos := x.step_pos
  have hsmall : x.mantissa < 10 := by
    have hwidth : (10 : ℚ) ^ e ≤ x.step := by linarith [hten.upper]
    rw [magnitude_eq_mul_step] at hhalf
    have hmul : (x.mantissa : ℚ) * x.step < 10 * x.step := by linarith
    exact_mod_cast lt_of_mul_lt_mul_right hmul hpos.le
  have hnat : 2 * x.mantissa * 2 ^ x.exponent.toNat * 10 ^ (-e).toNat =
      19 * (10 ^ e.toNat * 2 ^ (-x.exponent).toNat) := by
    rw [magnitude_eq_mul_step, step, zpow_eq_div 2, zpow_eq_div 10] at hhalf
    field_simp at hhalf
    exact_mod_cast (by linarith : (2 * x.mantissa * 2 ^ x.exponent.toNat * 10 ^ (-e).toNat : ℚ) =
      19 * (10 ^ e.toNat * 2 ^ (-x.exponent).toNat))
  have hdvd : 19 ∣ 2 * x.mantissa * 2 ^ x.exponent.toNat * 10 ^ (-e).toNat := ⟨_, hnat⟩
  have htwo := (Nat.Coprime.pow_right _ (by decide : Nat.Coprime 19 10)).dvd_of_dvd_mul_right hdvd
  have hmantissa := (Nat.Coprime.pow_right _ (by decide : Nat.Coprime 19 2)).dvd_of_dvd_mul_right htwo
  omega

/-- If ten steps of a grid are best, but another number of steps is as near, then this number is nine. -/
theorem halfway_of_ten {scale : ℤ} {j : ℕ} (hhigh : x.magnitude < 10 ^ scale)
    (hbest : x.IsBestOnGrid (scale - (1 : ℕ)) 10) (hj : x.IsRoundingOf (j * 10 ^ (scale - (1 : ℕ))))
    (hne : j ≠ 10)
    (htie : |j * (10 : ℚ) ^ (scale - (1 : ℕ)) - x.magnitude| =
      |(10 : ℕ) * (10 : ℚ) ^ (scale - (1 : ℕ)) - x.magnitude|) :
    2 * x.magnitude = 19 * 10 ^ (scale - (1 : ℕ)) := by
  have hpos : (0 : ℚ) < 10 ^ (scale - (1 : ℕ)) := by positivity
  have hscale : (10 : ℚ) ^ scale = 10 * 10 ^ (scale - (1 : ℕ)) := by
    rw [← zpow_one_add₀ (by norm_num)]
    congr 1
    push_cast
    omega
  have hten := hbest.reads
  have hnearest := hbest.nearest 9
  generalize (10 : ℚ) ^ (scale - (1 : ℕ)) = u at *
  push_cast at hten htie hnearest
  rw [hscale] at hhigh
  rw [abs_of_nonneg (by linarith : (0 : ℚ) ≤ 10 * u - x.magnitude)] at htie hnearest
  -- The other number of steps is as far below `x` as ten are above it.
  have hbelow : x.magnitude - j * u = 10 * u - x.magnitude := by
    rcases le_total ((j : ℚ) * u) x.magnitude with hle | hge
    · rwa [abs_of_nonpos (by linarith), neg_sub] at htie
    · rw [abs_of_nonneg (by linarith)] at htie
      exact absurd (by exact_mod_cast mul_right_cancel₀ hpos.ne' (by linarith : (j : ℚ) * u = 10 * u)) hne
  have hlt : j < 10 := by
    exact_mod_cast lt_of_mul_lt_mul_right (by linarith : (j : ℚ) * u < 10 * u) hpos.le
  have hmul : ∀ m : ℕ, j ≤ m → (j : ℚ) * u ≤ m * u := fun m hm =>
    mul_le_mul_of_nonneg_right (by exact_mod_cast hm) hpos.le
  have hnine : x.IsRoundingOf (9 * u) := by
    have hle := hmul 9 (by omega)
    push_cast at hle
    rcases le_total (9 * u) x.magnitude with hbelow | habove
    · exact hj.between x.isRoundingOf_magnitude hle hbelow
    · exact x.isRoundingOf_magnitude.between hten habove (by linarith)
  have hge : 9 ≤ j := by
    by_contra hsmall
    have hle := hmul 8 (by omega)
    have hfar := hnearest hnine
    push_cast at hle
    rw [abs_of_nonneg (by linarith)] at hfar
    linarith
  obtain rfl : j = 9 := by omega
  push_cast at hbelow
  linarith

/-- The best point on the grid of `n` digits has at least `n` digits and is at most `10 ^ n`. -/
theorem IsBestOnGrid.bounds {scale : ℤ} {n k : ℕ} (hbest : x.IsBestOnGrid (scale - n) k)
    (hlow : (10 : ℚ) ^ (scale - 1) ≤ x.magnitude) (hhigh : x.magnitude < 10 ^ scale) (hn : 0 < n) :
    10 ^ (n - 1) ≤ k ∧ k ≤ 10 ^ n := by
  have hpos : (0 : ℚ) < 10 ^ (scale - n) := by positivity
  have hend : (10 : ℚ) ^ scale = (10 ^ n : ℕ) * 10 ^ (scale - n) := by
    push_cast
    rw [← zpow_natCast, ← zpow_add₀ (by norm_num), add_sub_cancel]
  have hbegin : (10 : ℚ) ^ (scale - 1) = (10 ^ (n - 1) : ℕ) * 10 ^ (scale - n) := by
    push_cast
    rw [← zpow_natCast, ← zpow_add₀ (by norm_num)]
    congr 1
    omega
  obtain ⟨hfloor, hceil⟩ := x.gridFloor_mul_le (scale - n)
  have hfloorlt : x.gridFloor (scale - n) < 10 ^ n := by
    rw [hend] at hhigh
    exact_mod_cast lt_of_mul_lt_mul_right (hfloor.trans_lt hhigh) hpos.le
  have hfloorge : 10 ^ (n - 1) < x.gridFloor (scale - n) + 1 := by
    rw [hbegin] at hlow
    exact_mod_cast lt_of_mul_lt_mul_right (hlow.trans_lt hceil) hpos.le
  rcases hbest.neighbour with rfl | rfl <;> omega

/-- A point that ends in a zero is on the next coarser grid as well. -/
theorem isRoundingOf_coarser {scale : ℤ} {n k : ℕ} (hn : 0 < n) (hlast : k % 10 = 0)
    (h : x.IsRoundingOf (k * 10 ^ (scale - n))) :
    x.IsRoundingOf ((k / 10 : ℕ) * 10 ^ (scale - (n - 1 : ℕ))) := by
  have hvalue : ((k / 10 : ℕ) : ℚ) * 10 ^ (scale - (n - 1 : ℕ)) = k * 10 ^ (scale - n) := by
    have hdigits : (k : ℚ) = (k / 10 : ℕ) * 10 := by
      exact_mod_cast (Nat.div_mul_cancel (Nat.dvd_of_mod_eq_zero hlast)).symm
    rw [show scale - (n - 1 : ℕ) = scale - n + 1 by omega, zpow_add_one₀ (by norm_num), hdigits]
    ring
  rwa [hvalue]

/-- The best point on the coarsest grid has as many digits as the grid, once its zeros are dropped. Only
ten on the grid of one digit has any. -/
theorem digits_of_isBestOnGrid {scale : ℤ} {n k : ℕ}
    (hlow : (10 : ℚ) ^ (scale - 1) ≤ x.magnitude) (hhigh : x.magnitude < 10 ^ scale) (hn : 0 < n)
    (hbest : x.IsBestOnGrid (scale - n) k)
    (hcoarser : ∀ c : ℕ, 0 < c → c < n → ∀ j : ℕ, ¬ x.IsRoundingOf (j * 10 ^ (scale - c))) :
    digitCount ((Decimal.mk k (scale - n)).dropZeros (digitCount k)).digits = n ∧
      (((Decimal.mk k (scale - n)).dropZeros (digitCount k)).digits = k ∨ n = 1 ∧ k = 10) := by
  obtain ⟨hkLow, hkHigh⟩ := hbest.bounds hlow hhigh hn
  by_cases hlast : k % 10 = 0
  · have hone : n = 1 := by
      by_contra hne
      exact hcoarser (n - 1) (by omega) (by omega) _ (isRoundingOf_coarser hn hlast hbest.reads)
    subst hone
    obtain rfl : k = 10 := by omega
    rw [Decimal.dropZeros_ten]
    exact ⟨digitCount_one, .inr ⟨rfl, rfl⟩⟩
  · rw [Decimal.dropZeros_of_mod_ne_zero hlast]
    exact ⟨digitCount_of_bounds hn hkLow hkHigh hlast, .inl rfl⟩

end

/-! ### Shortest decimals -/

/-- The decimal `d` is read as `x`, no other one with fewer digits is, and of those with as many digits
none is nearer to `x`. If another one is as near, `d` has the even digits. -/
structure IsShortest (x : Binary binary64) (d : Decimal) : Prop where
  reads : Double.ofDecimal x.negative d = .finite x
  fewest (d' : Decimal) : Double.ofDecimal x.negative d' = .finite x →
    digitCount d.digits ≤ digitCount d'.digits
  nearest (d' : Decimal) : Double.ofDecimal x.negative d' = .finite x →
    digitCount d'.digits = digitCount d.digits → |d.value - x.magnitude| ≤ |d'.value - x.magnitude|
  even (d' : Decimal) : Double.ofDecimal x.negative d' = .finite x →
    digitCount d'.digits = digitCount d.digits → d'.value ≠ d.value →
    |d'.value - x.magnitude| = |d.value - x.magnitude| → d.digits % 2 = 0

theorem isShortest_of_zero {x : Binary binary64} (hx : x.mantissa = 0) : x.IsShortest x.shortest := by
  have hzero : x.magnitude = 0 := by rw [magnitude_eq_mul_step, hx, Nat.cast_zero, zero_mul]
  have hvalue : (Decimal.mk 0 0).value = 0 := by simp [Decimal.value]
  unfold shortest
  rw [if_pos hx]
  refine ⟨?_, fun d' _ => digitCount_pos _, fun d' _ _ => ?_, fun _ _ _ _ _ => rfl⟩
  · rw [Double.ofDecimal_eq_finite_iff, hvalue, ← hzero]
    exact ⟨rfl, x.isRoundingOf_magnitude⟩
  · rw [hvalue, hzero, sub_zero, abs_zero]
    exact abs_nonneg _

/-- Printing a double gives its shortest decimal. -/
theorem isShortest_shortest (x : Binary binary64) : x.IsShortest x.shortest := by
  by_cases hx : x.mantissa = 0
  · exact isShortest_of_zero hx
  obtain ⟨hlow, hhigh⟩ := scale_spec hx
  obtain ⟨n, k, hn, hbest, hshortest, hcoarser⟩ := shortest_search hx
  generalize decimalScale x.numerator x.denominator = scale at hlow hhigh hbest hshortest hcoarser
  obtain ⟨hcount, hdigits⟩ := digits_of_isBestOnGrid hlow hhigh hn hbest hcoarser
  have hvalue : x.shortest.value = k * 10 ^ (scale - n) := by
    rw [hshortest, Decimal.value_dropZeros]
    rfl
  rw [← hshortest] at hcount hdigits
  have hreads : ∀ d', Double.ofDecimal x.negative d' = .finite x → x.IsRoundingOf d'.value :=
    fun d' h => (Double.ofDecimal_eq_finite_iff.1 h).2
  refine ⟨Double.ofDecimal_eq_finite_iff.2 ⟨rfl, hvalue ▸ hbest.reads⟩, ?_, ?_, ?_⟩
  · intro d' hd'
    by_contra hlt
    rw [hcount] at hlt
    obtain ⟨j, hj, -⟩ := exists_onGrid hlow (digitCount_pos d'.digits) (hreads d' hd') le_rfl
    exact hcoarser _ (digitCount_pos d'.digits) (not_le.1 hlt) j hj
  · intro d' hd' heq
    obtain ⟨j, hj, hcases⟩ := exists_onGrid hlow hn (hreads d' hd') (heq.trans hcount).le
    rw [hvalue]
    refine (hbest.nearest j hj).trans ?_
    rcases hcases with hgrid | hnearer
    · rw [hgrid]
    · exact hnearer.le
  · intro d' hd' heq hne htie
    obtain ⟨j, hj, hcases⟩ := exists_onGrid hlow hn (hreads d' hd') (heq.trans hcount).le
    have hbestj := hbest.nearest j hj
    rw [hvalue] at hne htie
    rcases hcases with hgrid | hnearer
    · rw [hgrid] at hne htie
      have hjk : j ≠ k := by
        rintro rfl
        exact hne rfl
      rcases hdigits with hk | ⟨rfl, rfl⟩
      · exact hk ▸ hbest.even j hj hjk htie
      · exact absurd (halfway_of_ten hhigh hbest hj hjk htie) (not_halfway_nine_ten hx hbest.reads)
    · linarith

namespace IsShortest

variable {x : Binary binary64} {d d' : Decimal}

theorem isRoundingOf (h : x.IsShortest d) : x.IsRoundingOf d.value :=
  (Double.ofDecimal_eq_finite_iff.1 h.reads).2

theorem digitCount_eq (h : x.IsShortest d) (h' : x.IsShortest d') :
    digitCount d.digits = digitCount d'.digits :=
  le_antisymm (h.fewest d' h'.reads) (h'.fewest d h.reads)

theorem le_digitCount (h : x.IsShortest d) (hd' : x.IsRoundingOf d'.value) :
    digitCount d.digits ≤ digitCount d'.digits :=
  h.fewest d' (Double.ofDecimal_eq_finite_iff.2 ⟨rfl, hd'⟩)

theorem abs_sub_le (h : x.IsShortest d) (hd' : x.IsRoundingOf d'.value)
    (hcount : digitCount d'.digits = digitCount d.digits) :
    |d.value - x.magnitude| ≤ |d'.value - x.magnitude| :=
  h.nearest d' (Double.ofDecimal_eq_finite_iff.2 ⟨rfl, hd'⟩) hcount

theorem abs_sub_eq (h : x.IsShortest d) (h' : x.IsShortest d') :
    |d.value - x.magnitude| = |d'.value - x.magnitude| :=
  le_antisymm (h.abs_sub_le h'.isRoundingOf (h.digitCount_eq h').symm)
    (h'.abs_sub_le h.isRoundingOf (h.digitCount_eq h'))

theorem digits_ne_zero (h : x.IsShortest d) (hd : d.value ≠ x.magnitude) : d.digits ≠ 0 := by
  intro hzero
  have hvalue : d.value = 0 := by rw [Decimal.value, hzero, Nat.cast_zero, zero_mul]
  have hmantissa := h.isRoundingOf.mantissa_eq_zero hvalue
  rw [magnitude_eq_mul_step, hmantissa, Nat.cast_zero, zero_mul] at hd
  exact hd hvalue

/-- On one grid, two shortest decimals around `x` would have an equally short one between them, their
digits being even. -/
theorem not_between_of_exponent_eq (h : x.IsShortest d) (h' : x.IsShortest d')
    (hd : d.value < x.magnitude) (hd' : x.magnitude < d'.value) (hexponent : d.exponent = d'.exponent) :
    False := by
  have hcount := h.digitCount_eq h'
  have hpos : (0 : ℚ) < 10 ^ d.exponent := by positivity
  have htie := h.abs_sub_eq h'
  have heven := h.even d' h'.reads hcount.symm (by linarith) htie.symm
  have heven' := h'.even d h.reads hcount (by linarith) htie
  rw [abs_of_neg (by linarith), abs_of_pos (by linarith)] at htie
  let middle : Decimal := ⟨d.digits / 2 + d'.digits / 2, d.exponent⟩
  have hmiddle : middle.value = x.magnitude := by
    have hhalf : (d.digits : ℚ) = 2 * (d.digits / 2 : ℕ) := by
      exact_mod_cast (by omega : d.digits = 2 * (d.digits / 2))
    have hhalf' : (d'.digits : ℚ) = 2 * (d'.digits / 2 : ℕ) := by
      exact_mod_cast (by omega : d'.digits = 2 * (d'.digits / 2))
    have hsum : middle.value = ((d.digits / 2 : ℕ) + (d'.digits / 2 : ℕ)) * 10 ^ d.exponent := by
      rw [← Nat.cast_add]
      rfl
    rw [Decimal.value, Decimal.value, ← hexponent, hhalf, hhalf'] at htie
    rw [hsum]
    linarith
  have hreads : x.IsRoundingOf middle.value := hmiddle ▸ x.isRoundingOf_magnitude
  have hlt : d.digits < d'.digits := by
    have hvalue := hd.trans hd'
    rw [Decimal.value, Decimal.value, ← hexponent] at hvalue
    exact_mod_cast lt_of_mul_lt_mul_right hvalue hpos.le
  have hcountle : digitCount middle.digits ≤ digitCount d.digits := by
    have hle : middle.digits ≤ d'.digits := by
      show d.digits / 2 + d'.digits / 2 ≤ d'.digits
      omega
    rw [hcount]
    exact (digitCount_le_iff (digitCount_pos _)).2 (hle.trans_lt (lt_pow_digitCount _))
  have hnear := h.abs_sub_le hreads (le_antisymm hcountle (h.le_digitCount hreads))
  rw [hmiddle, sub_self, abs_zero, abs_of_neg (by linarith)] at hnear
  linarith

/-- On two grids, two shortest decimals around `x` would be separated by a power of ten, which has one
digit. -/
theorem not_between_of_exponent_lt (h : x.IsShortest d) (h' : x.IsShortest d')
    (hd : d.value < x.magnitude) (hd' : x.magnitude < d'.value) (hexponent : d.exponent < d'.exponent) :
    False := by
  have hcount := h.digitCount_eq h'
  have htie := h.abs_sub_eq h'
  have heven := h'.even d h.reads hcount (by linarith) htie
  have hdigits := h'.digits_ne_zero hd'.ne'
  let ten : Decimal := ⟨1, d.exponent + digitCount d.digits⟩
  have hten : ten.value = 10 ^ (d.exponent + digitCount d.digits) := by
    show ((1 : ℕ) : ℚ) * 10 ^ (d.exponent + digitCount d.digits) = _
    rw [Nat.cast_one, one_mul]
  have hcountten : digitCount ten.digits = 1 := digitCount_one
  have hbelow : d.value < ten.value := hten ▸ d.value_lt
  have habove : ten.value ≤ d'.value := by
    refine le_trans ?_ (Decimal.le_value hdigits)
    rw [hten, hcount]
    exact zpow_le_zpow_right₀ (by norm_num) (by omega)
  have hreads : x.IsRoundingOf ten.value := h.isRoundingOf.between h'.isRoundingOf hbelow.le habove
  have hone : digitCount d'.digits = 1 :=
    le_antisymm (hcountten ▸ h'.le_digitCount hreads) (digitCount_pos _)
  -- The power of ten is no nearer, and so is the upper one of the two.
  have heq : ten.value = d'.value := by
    have hnear := h'.abs_sub_le hreads (hcountten.trans hone.symm)
    rw [abs_of_neg (by linarith), abs_of_pos (by linarith)] at htie
    rw [abs_of_pos (by linarith)] at hnear
    rcases abs_cases (ten.value - x.magnitude) with ⟨habs, -⟩ | ⟨habs, -⟩ <;> linarith
  have hle : d'.digits ≤ 1 := by
    have hpos : (0 : ℚ) < 10 ^ d'.exponent := by positivity
    have hpow : ten.value ≤ 1 * 10 ^ d'.exponent := by
      rw [hten, one_mul, hcount, hone]
      exact zpow_le_zpow_right₀ (by norm_num) (by omega)
    rw [heq, Decimal.value] at hpow
    exact_mod_cast le_of_mul_le_mul_right hpow hpos
  omega

/-- Two shortest decimals do not lie on both sides of the number. -/
theorem not_between (h : x.IsShortest d) (h' : x.IsShortest d') (hd : d.value < x.magnitude)
    (hd' : x.magnitude < d'.value) : False := by
  rcases lt_trichotomy d.exponent d'.exponent with hlt | heq | hgt
  · exact h.not_between_of_exponent_lt h' hd hd' hlt
  · exact h.not_between_of_exponent_eq h' hd hd' heq
  · -- As many digits on the coarser grid make the larger decimal.
    have hle : d'.value ≤ d.value := by
      refine (d'.value_lt.le.trans ?_).trans (Decimal.le_value (h.digits_ne_zero hd.ne))
      rw [h.digitCount_eq h']
      exact zpow_le_zpow_right₀ (by norm_num) (by omega)
    linarith

/-- A double has one shortest decimal only. -/
theorem value_eq (h : x.IsShortest d) (h' : x.IsShortest d') : d.value = d'.value := by
  rcases abs_eq_abs.1 (h.abs_sub_eq h') with heq | hopposite
  · linarith
  · rcases lt_trichotomy d.value x.magnitude with hlt | heq | hgt
    · exact (h.not_between h' hlt (by linarith)).elim
    · linarith
    · exact (h'.not_between h (by linarith) hgt).elim

end IsShortest

end Binary

end LootTables
