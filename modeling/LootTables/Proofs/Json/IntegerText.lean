import LootTables.Proofs.Json.NumberText
import LootTables.Proofs.Number.Narrowing

/-!
# Integers as they are written

An integer can be written in many ways: with a fraction of zeros, with an exponent that makes up for
digits after the point or for zeros at the end, with a minus sign in front of a zero. Written with
digits only it is read as an integer, which is exact but limits the number of digits; in any other way
it is read as a double, which is exact up to `2 ^ 53`. Within these bounds the number that is read
stands for the integer that is written (`NumberText.DenotesInteger.exists_spells`).
-/

namespace LootTables

-- A power is that of the natural numbers, also where a more general one is known.
attribute [local instance (high)] instPowNat

/-- Up to `2 ^ 53` every natural number is the magnitude of a double. -/
theorem exists_magnitude_eq_natCast {n : ℕ} (h : n ≤ 2 ^ 53) : ∃ y : Binary binary64, y.magnitude = n := by
  rcases Nat.eq_zero_or_pos n with rfl | hpos
  · exact ⟨⟨false, 0, -1074, Binary.canonical_zero⟩, by simp [Binary.magnitude]⟩
  rcases h.eq_or_lt with rfl | hlt
  · obtain ⟨y, hy, -⟩ := BinaryFormat.exists_pow (k := 1) BinaryFormat.binary64_isProper (by decide)
      (by decide)
    refine ⟨y, hy.trans ?_⟩
    norm_num [BinaryFormat.pow]
  -- The mantissa is filled up to its full number of bits.
  have hlog : n.log2 < 53 := (Nat.log2_lt hpos.ne').2 hlt
  have hlow : 2 ^ n.log2 ≤ n := Nat.log2_self_le hpos.ne'
  have hhigh : n < 2 ^ (n.log2 + 1) := Nat.lt_log2_self
  obtain ⟨k, hk⟩ : ∃ k, n.log2 + k = 52 := ⟨52 - n.log2, by omega⟩
  have hfull : 2 ^ 52 ≤ n * 2 ^ k := by
    calc 2 ^ 52 = 2 ^ n.log2 * 2 ^ k := by rw [← Nat.pow_add, hk]
      _ ≤ n * 2 ^ k := Nat.mul_le_mul_right _ hlow
  have hfits : n * 2 ^ k < 2 ^ 53 := by
    calc n * 2 ^ k < 2 ^ (n.log2 + 1) * 2 ^ k := Nat.mul_lt_mul_of_pos_right hhigh (Nat.two_pow_pos k)
      _ = 2 ^ 53 := by rw [← Nat.pow_add]; congr 1; omega
  have hleast : (-1074 : ℤ) ≤ -k := by omega
  have hgreatest : -(k : ℤ) ≤ 971 := by omega
  refine ⟨⟨false, n * 2 ^ k, -k, hfits, hleast, hgreatest, fun hsmall => ?_⟩, ?_⟩
  · exact absurd hsmall (Nat.not_lt.2 hfull)
  · unfold Binary.magnitude
    rw [zpow_neg, zpow_natCast]
    push_cast
    field_simp

namespace Json

/-! ### How long an integer is -/

/-- Digits that do not begin with a zero make a number as long as they are. -/
theorem pow_length_le_natOfDigits {c : CodePoint} (hc : 1 ≤ c.digitValue) (ds : Text) :
    10 ^ ds.length ≤ Text.natOfDigits (c :: ds) := by
  have hsplit := natOfDigits_append [c] ds
  have hone : Text.natOfDigits [c] = c.digitValue := by simp [Text.natOfDigits]
  rw [List.singleton_append, hone] at hsplit
  rw [hsplit]
  calc 10 ^ ds.length = 1 * 10 ^ ds.length := (Nat.one_mul _).symm
    _ ≤ c.digitValue * 10 ^ ds.length := Nat.mul_le_mul_right _ hc
    _ ≤ _ := Nat.le_add_right _ _

namespace NumberText

variable {x : NumberText} {n : ℤ}

/-- The digits before the point are no more than the number of digits of what they denote. -/
theorem length_whole_le {k : ℕ} (hk : 0 < k) (h : Text.natOfDigits x.whole < 10 ^ k) :
    x.whole.length ≤ k := by
  obtain ⟨c, ds, hwhole⟩ := List.exists_cons_of_ne_nil x.whole_ne_nil
  have hzero := x.whole_zero
  have hdigit := x.whole_isDigit
  rw [hwhole] at h hzero hdigit ⊢
  by_cases hc : c = (('0' : Char) : CodePoint)
  · obtain ⟨-, rfl⟩ := List.cons.inj (hzero (congrArg some hc))
    exact hk
  · have hrange := of_decide_eq_true (hdigit c List.mem_cons_self)
    have hne : c.val ≠ 0x30 := fun hval => hc (CodePoint.ext hval)
    have hvalue : 1 ≤ c.digitValue := by
      unfold CodePoint.digitValue
      omega
    have hpow := pow_length_le_natOfDigits hvalue ds
    exact (Nat.pow_lt_pow_iff_right (by decide)).1 (hpow.trans_lt h)

/-- The text is one of the ways to write the integer: with digits only and no more of them than are
read, or in any way that gives it a value of at most `2 ^ 53`. -/
def DenotesInteger (x : NumberText) (n : ℤ) : Prop :=
  x.value = n ∧ (|n| ≤ 2 ^ 53 ∨ x.IsInteger ∧ x.whole.length ≤ numeralLimit)

theorem magnitude_nonneg (x : NumberText) : 0 ≤ x.magnitude := by
  rw [← x.value_decimal]
  exact x.decimal.value_nonneg

theorem magnitude_eq_natAbs (h : x.value = n) : x.magnitude = n.natAbs := by
  rw [← Binary.abs_signed x.negative x.magnitude_nonneg, ← value, h, Nat.cast_natAbs, Int.cast_abs]

/-- A magnitude that a double has is read as a double with this magnitude. -/
theorem exists_double {y : Binary binary64} (hy : y.magnitude = x.magnitude) :
    ∃ d : Binary binary64, d.negative = x.negative ∧ d.IsRoundingOf x.magnitude ∧ d.value = x.value := by
  have hnearest : y.IsRoundingOf x.magnitude := hy ▸ y.isRoundingOf_magnitude
  rcases Double.ofDecimal_cases x.negative x.decimal with ⟨d, -, hnegative, hd⟩ | ⟨-, hover⟩
  · rw [x.value_decimal] at hd
    have hvalue : d.value = x.value := by
      rw [Binary.value_eq_signed, value, hnegative, hd.magnitude_eq hnearest, hy]
    exact ⟨d, hnegative, hd, hvalue⟩
  · rw [x.value_decimal] at hover
    exact absurd (BinaryFormat.lt_overflow BinaryFormat.binary64_isProper hnearest) (not_lt_of_ge hover)

/-- An integer that is written with digits only has their value but for its sign. -/
theorem IsInteger.natOfDigits_eq (h : x.IsInteger) (hvalue : x.value = n) :
    Text.natOfDigits x.whole = n.natAbs := by
  rw [h.value_eq, Int.cast_inj] at hvalue
  rw [← hvalue]
  split <;> simp

/-- What denotes an integer is read as a number that stands for it: as that integer if it is written with
digits only, and otherwise as that double. -/
theorem DenotesInteger.exists_spells (h : x.DenotesInteger n) :
    ∃ num, x.Spells num ∧ num.value? = some (n : ℚ) := by
  obtain ⟨hvalue, hbound⟩ := h
  have hsmall : |n| ≤ 2 ^ 53 → n.natAbs ≤ 2 ^ 53 := by
    intro hle
    rw [Int.abs_eq_natAbs] at hle
    exact_mod_cast hle
  by_cases hinteger : x.IsInteger
  · refine ⟨.integer n, ⟨hinteger, ?_, hvalue⟩, rfl⟩
    rcases hbound with hbound | ⟨-, hlength⟩
    · have hdigits : Text.natOfDigits x.whole < 10 ^ 16 := by
        rw [hinteger.natOfDigits_eq hvalue]
        exact (hsmall hbound).trans_lt (by decide)
      exact (length_whole_le (by decide) hdigits).trans (by decide)
    · exact hlength
  · have hbound := hbound.resolve_right fun h => hinteger h.1
    obtain ⟨y, hy⟩ := exists_magnitude_eq_natCast (hsmall hbound)
    obtain ⟨d, hnegative, hrounding, hd⟩ :=
      exists_double (hy.trans (magnitude_eq_natAbs hvalue).symm)
    exact ⟨.double (.finite d), ⟨hinteger, hnegative, hrounding⟩, congrArg some (hd.trans hvalue)⟩

theorem DenotesInteger.value?_eq (h : x.DenotesInteger n) {num : Number} (hnum : x.Spells num) :
    num.value? = some (n : ℚ) := by
  obtain ⟨num', hnum', hvalue⟩ := h.exists_spells
  rw [hnum.unique hnum', hvalue]

end NumberText

end Json

end LootTables
