import LootTables.Proofs.Number.LiteralValue

/-!
# Reading literals back

The number that a literal stands for is a decimal like any other, and can be read as a double and be
narrowed and written again. This gives the same literal (`Double.literal_reread`), and from `2 ^ 20` on
even the same single.

Below `2 ^ 20` the three roundings on the way together move the number by less than half a tenth, so that
rounding to tenths takes it back. From `2 ^ 20` on the distance between singles is so large that a tenth
does not matter: half a tenth is less than half a step, and next to a power of two, where the step below is
only half as large, the single itself has a literal without a fraction, so that nothing is rounded at all
but for the shortest decimal.
-/

namespace LootTables

-- A power is that of the natural numbers, also where a more general one is known.
attribute [local instance (high)] instPowNat

/-! ### Tenths are nearest -/

namespace Decimal

theorem tenths_spec (d : Decimal) : (d.tenths : ℚ) ≤ 10 * d.value + 1 / 2 ∧
    10 * d.value + 1 / 2 < d.tenths + 1 := by
  have hvalue := d.value_nonneg
  rw [d.tenths_eq]
  exact ⟨Nat.floor_le (by positivity), Nat.lt_floor_add_one _⟩

theorem abs_tenths_sub_le_half (d : Decimal) : |(d.tenths : ℚ) / 10 - d.value| ≤ 1 / 20 := by
  obtain ⟨hle, hlt⟩ := d.tenths_spec
  rw [abs_sub_le_iff]
  constructor <;> linarith

/-- What is nearer to a decimal than half a tenth has the same tenths. -/
theorem tenths_eq_of_abs_sub_lt {d : Decimal} {n : ℕ} (h : |(n : ℚ) / 10 - d.value| < 1 / 20) :
    d.tenths = n := by
  obtain ⟨hlower, hupper⟩ := abs_sub_lt_iff.1 h
  have hvalue := d.value_nonneg
  rw [d.tenths_eq, Nat.floor_eq_iff (by positivity)]
  constructor <;> linarith

/-- No number of tenths is nearer to a decimal than its own. -/
theorem abs_tenths_sub_le (d : Decimal) (n : ℕ) :
    |(d.tenths : ℚ) / 10 - d.value| ≤ |(n : ℚ) / 10 - d.value| := by
  rcases lt_or_ge |(n : ℚ) / 10 - d.value| (1 / 20) with hlt | hge
  · rw [tenths_eq_of_abs_sub_lt hlt]
  · exact d.abs_tenths_sub_le_half.trans hge

end Decimal

/-! ### Reading a literal -/

/-- The magnitude of a literal as a decimal. -/
def FixedPoint.decimal (p : FixedPoint) : Decimal := ⟨p.tenths, -1⟩

theorem FixedPoint.value_decimal (p : FixedPoint) : p.decimal.value = p.tenths / 10 := by
  show (p.tenths : ℚ) * 10 ^ (-1 : ℤ) = p.tenths / 10
  rw [zpow_neg_one, div_eq_mul_inv]

/-- The literal of a single is read as a finite double. -/
theorem Single.exists_reading (s : Single) :
    ∃ w : Binary binary64, Double.ofDecimal s.fixedPoint.negative s.fixedPoint.decimal = .finite w ∧
      w.negative = s.negative ∧ w.IsRoundingOf (s.fixedPoint.tenths / 10) := by
  rw [← FixedPoint.value_decimal]
  rcases Double.ofDecimal_cases s.fixedPoint.negative s.fixedPoint.decimal with hfinite | ⟨-, hover⟩
  · exact hfinite
  · obtain ⟨past, hpast, -⟩ := BinaryFormat.exists_pow BinaryFormat.binary64_isProper
      (by decide : binary64.minExponent < 77) (by decide)
    have hpow : binary64.pow 77 = 2 ^ 129 := by norm_num [BinaryFormat.pow]
    have hlt := BinaryFormat.lt_overflow BinaryFormat.binary64_isProper past.isRoundingOf_magnitude
    have htenths := s.widen.shortest.tenths_spec.1
    rw [FixedPoint.value_decimal, s.tenths_fixedPoint] at hover
    linarith [s.shortest_lt]

/-- Below a power of two, the shortest decimal is no further away than half the step below this power. -/
theorem Single.shortest_near {s : Single} {k : ℤ} (hmin : binary64.minExponent < k)
    (hmax : k ≤ binary64.maxExponent) (hs : s.magnitude < binary64.pow k) :
    s.widen.shortest.value < binary64.pow k ∧
      |s.magnitude - s.widen.shortest.value| ≤ 2 ^ k / 4 := by
  have hrounding := s.widen.isShortest_shortest.isRoundingOf
  rw [← Binary.magnitude_widen] at hs ⊢
  have hlt := hrounding.lt_pow BinaryFormat.binary64_isProper hmin hmax hs
  exact ⟨hlt, hrounding.abs_sub_le_pow BinaryFormat.binary64_isProper hmin hmax hlt.le⟩

/-! ### Small singles -/

/-- A literal that is not past `2 ^ 20` is moved by less than half a tenth when it is read, narrowed and
written again. -/
theorem Single.tenths_reread {t : ℕ} {w : Binary binary64} (ht : (t : ℚ) / 10 ≤ 2 ^ 20)
    (hw : w.IsRoundingOf (t / 10)) :
    ∃ s : Single, w.narrow? = some s ∧ s.fixedPoint.tenths = t := by
  have hpow : binary64.pow (-32) = 2 ^ 20 := by norm_num [BinaryFormat.pow]
  have hpow' : binary32.pow (-3) = 2 ^ 20 := by norm_num [BinaryFormat.pow]
  have hpow'' : binary64.pow (-31) = 2 ^ 21 := by norm_num [BinaryFormat.pow]
  have hproper := BinaryFormat.binary64_isProper
  have hread := hw.abs_sub_le_pow hproper (k := -32) (by decide) (by decide) (hpow ▸ ht)
  have hwle : w.magnitude ≤ 2 ^ 20 :=
    hpow ▸ hw.magnitude_le_pow hproper (by decide) (by decide) (hpow ▸ ht)
  obtain ⟨s, hs⟩ := Binary.exists_narrow? (by linarith : w.magnitude < 2 ^ 128 - 2 ^ 103)
  obtain ⟨-, hrounding⟩ := Binary.narrow?_eq_some_iff.1 hs
  have hproper' := BinaryFormat.binary32_isProper
  have hnarrow := hrounding.abs_sub_le_pow hproper' (k := -3) (by decide) (by decide) (hpow' ▸ hwle)
  have hsle : s.magnitude ≤ 2 ^ 20 :=
    hpow' ▸ hrounding.magnitude_le_pow hproper' (by decide) (by decide) (hpow' ▸ hwle)
  obtain ⟨-, hshortest⟩ := s.shortest_near (k := -31) (by decide) (by decide) (by linarith)
  refine ⟨s, hs, ?_⟩
  rw [s.tenths_fixedPoint]
  refine Decimal.tenths_eq_of_abs_sub_lt ?_
  norm_num at hread hnarrow hshortest
  rw [abs_sub_le_iff] at hread hnarrow hshortest
  rw [abs_sub_lt_iff]
  constructor <;> linarith

theorem Single.tenths_le_of_lt {s : Single} (hs : s.magnitude < 2 ^ 20) :
    (s.fixedPoint.tenths : ℚ) / 10 ≤ 2 ^ 20 := by
  have hpow : binary64.pow (-32) = 2 ^ 20 := by norm_num [BinaryFormat.pow]
  obtain ⟨hvalue, -⟩ := s.shortest_near (k := -32) (by decide) (by decide) (hpow ▸ hs)
  rw [hpow] at hvalue
  have hspec := s.widen.shortest.tenths_spec.1
  rw [← s.tenths_fixedPoint] at hspec
  have hlt : s.fixedPoint.tenths < 10 * 2 ^ 20 + 1 := by
    exact_mod_cast (by linarith : (s.fixedPoint.tenths : ℚ) < 10 * 2 ^ 20 + 1)
  have hle : (s.fixedPoint.tenths : ℚ) ≤ 10 * 2 ^ 20 := by exact_mod_cast Nat.lt_succ_iff.1 hlt
  linarith

/-! ### Large singles -/

namespace Single

/-- The power of two after a single, as a power of the doubles. -/
theorem pow_exponent (s : Single) : binary64.pow (s.exponent - 28) = 2 ^ 24 * s.step ∧
    (2 : ℚ) ^ (s.exponent - 28) / 4 = s.step / 2 ^ 30 := by
  rw [BinaryFormat.pow, zpow_sub₀ two_ne_zero, Binary.step]
  norm_num
  constructor <;> ring

theorem exponent_range (s : Single) :
    binary64.minExponent < s.exponent - 28 ∧ s.exponent - 28 ≤ binary64.maxExponent := by
  have hmin : -149 ≤ s.exponent := s.canonical.2.1
  have hmax : s.exponent ≤ 104 := s.canonical.2.2.1
  show -1074 < s.exponent - 28 ∧ s.exponent - 28 ≤ 971
  omega

theorem magnitude_add_step_le_pow (s : Single) : s.magnitude + s.step ≤ 2 ^ 24 * s.step := by
  have hmantissa : (s.mantissa : ℚ) + 1 ≤ 2 ^ 24 := by exact_mod_cast s.canonical.1
  have hmul := mul_le_mul_of_nonneg_right hmantissa s.step_pos.le
  rw [Binary.magnitude_eq_mul_step]
  linarith

theorem abs_sub_shortest_le (s : Single) :
    |s.magnitude - s.widen.shortest.value| ≤ s.step / 2 ^ 30 := by
  obtain ⟨hpow, hquarter⟩ := s.pow_exponent
  obtain ⟨hmin, hmax⟩ := s.exponent_range
  rw [← hquarter]
  exact (s.shortest_near hmin hmax (by linarith [s.magnitude_add_step_le_pow, s.step_pos])).2

variable {s : Single}

theorem le_exponent (hs : 2 ^ 20 ≤ s.magnitude) : -3 ≤ s.exponent := by
  by_contra hlt
  have hstep : s.step ≤ 2 ^ (-4 : ℤ) := zpow_le_zpow_right₀ one_le_two (by omega)
  have hle := s.magnitude_add_step_le_pow
  norm_num at hstep
  linarith [s.step_pos]

/-- Next to a power of two from `2 ^ 20` on, the tenths are as near to the shortest decimal as the single,
which is an integer. -/
theorem abs_tenths_sub_le_of_narrow (hs : 2 ^ 20 ≤ s.magnitude) (hnarrow : s.isNarrowBelow) :
    |(s.fixedPoint.tenths : ℚ) / 10 - s.widen.shortest.value| ≤ s.step / 2 ^ 30 := by
  have hexponent := le_exponent hs
  obtain ⟨n, hn⟩ := Int.eq_ofNat_of_zero_le (by omega : 0 ≤ s.exponent + 3)
  have hinteger : ((10 * (2 ^ 20 * 2 ^ n) : ℕ) : ℚ) / 10 = s.magnitude := by
    rw [Binary.magnitude_eq_mul_step, (Binary.isNarrowBelow_iff.1 hnarrow).1, Binary.step,
      show s.exponent = n - 3 by omega, zpow_sub₀ two_ne_zero, zpow_natCast]
    push_cast
    norm_num
    ring
  have hnear := s.widen.shortest.abs_tenths_sub_le (10 * (2 ^ 20 * 2 ^ n))
  rw [hinteger, ← s.tenths_fixedPoint] at hnear
  exact hnear.trans s.abs_sub_shortest_le

/-- From `2 ^ 20` on, half a tenth is less than half a step. -/
theorem abs_tenths_sub_magnitude_le (hs : 2 ^ 20 ≤ s.magnitude) :
    |(s.fixedPoint.tenths : ℚ) / 10 - s.magnitude| ≤ s.stepBelow / 2 - s.step / 2 ^ 29 := by
  have hshortest := s.abs_sub_shortest_le
  have hstep : (1 / 8 : ℚ) ≤ s.step := by
    have hle : (2 : ℚ) ^ (-3 : ℤ) ≤ s.step := zpow_le_zpow_right₀ one_le_two (le_exponent hs)
    norm_num at hle ⊢
    exact hle
  have htenths : |(s.fixedPoint.tenths : ℚ) / 10 - s.widen.shortest.value| ≤
      s.stepBelow / 2 - s.step / 2 ^ 28 := by
    unfold Binary.stepBelow
    split
    · next hnarrow => linarith [abs_tenths_sub_le_of_narrow hs hnarrow]
    · have hhalf := s.widen.shortest.abs_tenths_sub_le_half
      rw [← s.tenths_fixedPoint] at hhalf
      linarith
  rw [abs_sub_le_iff] at hshortest htenths ⊢
  constructor <;> linarith

/-- From `2 ^ 20` on, what is read from the literal of a single is narrowed to the single. -/
theorem narrow?_reread {w : Binary binary64} (hs : 2 ^ 20 ≤ s.magnitude)
    (hsign : w.negative = s.negative) (hw : w.IsRoundingOf (s.fixedPoint.tenths / 10)) :
    w.narrow? = some s := by
  have htenths := abs_tenths_sub_magnitude_le hs
  obtain ⟨hpow, hquarter⟩ := s.pow_exponent
  obtain ⟨hmin, hmax⟩ := s.exponent_range
  have hnotPast : (s.fixedPoint.tenths : ℚ) / 10 ≤ binary64.pow (s.exponent - 28) := by
    rw [hpow]
    linarith [(abs_sub_le_iff.1 htenths).1, s.stepBelow_le, s.magnitude_add_step_le_pow, s.step_pos]
  have hread := hw.abs_sub_le_pow BinaryFormat.binary64_isProper hmin hmax hnotPast
  rw [hquarter] at hread
  refine Binary.narrow?_eq_some_iff.2 ⟨hsign.symm, Binary.isRoundingOf_of_abs_sub_lt ?_⟩
  rw [abs_sub_le_iff] at hread htenths
  rw [abs_sub_lt_iff]
  constructor <;> linarith [s.step_pos]

end Single

/-! ### Literals are stable -/

/-- Every double that is narrowed to a single has a literal, and the double nearest to this literal is
narrowed to a single as well and has the same literal. From `2 ^ 20` on the two singles are the same. -/
theorem Double.literal_reread {x : Double} {s : Single} (h : x.toSingle = .ok s) :
    ∃ (p : FixedPoint) (w : Binary binary64) (s' : Single), (Number.double x).literal = .ok p.text ∧
      Double.ofDecimal p.negative p.decimal = .finite w ∧ w.IsNearest p.value ∧
      (Double.finite w).toSingle = .ok s' ∧ (Number.double (.finite w)).literal = .ok p.text ∧
      (2 ^ 20 ≤ |s.value| → s' = s) := by
  obtain ⟨w, hread, hsign, hrounding⟩ := s.exists_reading
  have hnearest := hrounding.isNearest (by positivity)
  rw [hsign] at hnearest
  have hagain : ∃ s' : Single, w.narrow? = some s' ∧ s'.fixedPoint = s.fixedPoint ∧
      (2 ^ 20 ≤ |s.value| → s' = s) := by
    rw [Binary.abs_value]
    rcases le_or_gt (2 ^ 20) s.magnitude with hlarge | hsmall
    · exact ⟨s, Single.narrow?_reread hlarge hsign hrounding, rfl, fun _ => rfl⟩
    · obtain ⟨s', hs', htenths⟩ := Single.tenths_reread (Single.tenths_le_of_lt hsmall) hrounding
      refine ⟨s', hs', ?_, fun hlarge => absurd hsmall (not_lt_of_ge hlarge)⟩
      rw [s'.tenths_fixedPoint, s.tenths_fixedPoint] at htenths
      have hnegative : s'.negative = s.negative := (Binary.narrow?_eq_some_iff.1 hs').1.trans hsign
      rw [Single.fixedPoint, htenths, hnegative, Single.fixedPoint]
  obtain ⟨s', hs', hsame, hlarge⟩ := hagain
  have hsingle : (Double.finite w).toSingle = .ok s' := toSingle_eq_ok_iff.2 ⟨w, rfl, hs'⟩
  exact ⟨s.fixedPoint, w, s', Number.literal_eq h, hread, hnearest, hsingle,
    hsame ▸ Number.literal_eq hsingle, hlarge⟩

/-- The single of `10 ^ 30` is read back from its literal. -/
theorem nonillion_reread :
    ∃ (p : FixedPoint) (w : Binary binary64), (Number.double (.finite nonillion)).literal = .ok p.text ∧
      Double.ofDecimal p.negative p.decimal = .finite w ∧ w.IsNearest p.value ∧
      (Double.finite w).toSingle = .ok nonillionSingle ∧
      (Number.double (.finite w)).literal = .ok p.text := by
  obtain ⟨p, w, s', hp, hread, hnearest, hsingle, hagain, hlarge⟩ :=
    Double.literal_reread nonillion_toSingle
  have hvalue : (2 : ℚ) ^ 20 ≤ |nonillionSingle.value| := by
    norm_num [nonillionSingle, Binary.value, Binary.magnitude]
  rw [hlarge hvalue] at hsingle
  exact ⟨p, w, hp, hread, hnearest, hsingle, hagain⟩

end LootTables
