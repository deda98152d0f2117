import LootTables.Number.Bound
import LootTables.Proofs.Number.Rounding

/-!
# Narrowing doubles to singles

A double is narrowed to the single in whose interval it lies (`Binary.narrow?_eq_some_iff`), and has none
exactly from `2 ^ 128 - 2 ^ 103` on (`Binary.narrow?_eq_none_iff`), which is half a step above the largest
single. So narrowing is correct rounding on its whole domain (`Double.toSingle_rounds`).

What has no single lies past all of them, and so does an integer that is rounded to a double first
(`Number.isPastSingles_integer`).
-/

namespace LootTables

-- A power is that of the natural numbers, also where a more general one is known.
attribute [local instance (high)] instPowNat

/-! ### Singles as doubles -/

namespace Binary

theorem negative_widen (s : Single) : s.widen.negative = s.negative := by
  unfold widen
  split <;> rfl

/-- A single stands for the same number as a double. -/
theorem magnitude_widen (s : Single) : s.widen.magnitude = s.magnitude := by
  unfold widen
  split
  · next h => simp [magnitude, h]
  · next h =>
    unfold magnitude
    dsimp only
    rw [zpow_sub₀ two_ne_zero, zpow_natCast]
    push_cast
    field_simp

/-! ### Which single -/

theorem overflow_binary32 : binary32.overflow = 2 ^ 128 - 2 ^ 103 := by
  unfold BinaryFormat.overflow
  norm_num

theorem narrow?_eq_some_iff {x : Binary binary64} {s : Single} :
    x.narrow? = some s ↔ s.negative = x.negative ∧ s.IsRoundingOf x.magnitude := by
  rw [magnitude_eq_div]
  exact BinaryFormat.round_eq_some_iff BinaryFormat.binary32_isProper x.denominator_pos

theorem narrow?_eq_none_iff {x : Binary binary64} :
    x.narrow? = none ↔ 2 ^ 128 - 2 ^ 103 ≤ x.magnitude := by
  rw [magnitude_eq_div, ← overflow_binary32]
  exact BinaryFormat.round_eq_none_iff BinaryFormat.binary32_isProper x.denominator_pos

theorem exists_narrow? {x : Binary binary64} (h : x.magnitude < 2 ^ 128 - 2 ^ 103) :
    ∃ s, x.narrow? = some s :=
  Option.ne_none_iff_exists'.1 fun hnone => absurd h (not_lt_of_ge (narrow?_eq_none_iff.1 hnone))

/-- What is a single already stays as it is. -/
theorem narrow?_of_single {x : Binary binary64} {s : Single} (hnegative : s.negative = x.negative)
    (h : s.magnitude = x.magnitude) : x.narrow? = some s :=
  narrow?_eq_some_iff.2 ⟨hnegative, h ▸ s.isRoundingOf_magnitude⟩

theorem narrow?_widen (s : Single) : s.widen.narrow? = some s :=
  narrow?_of_single s.negative_widen.symm s.magnitude_widen.symm

end Binary

theorem toSingle_eq_ok_iff {x : Double} {s : Single} :
    x.toSingle = .ok s ↔ ∃ y : Binary binary64, x = .finite y ∧ y.narrow? = some s := by
  unfold Double.toSingle
  cases x with
  | finite y => cases h : y.narrow? <;> simp [h]
  | nan => simp
  | infinite negative => simp

theorem toSingle_eq_error_iff {x : Double} {e : BoundError} :
    x.toSingle = .error e ↔ (∀ y, x ≠ .finite y) ∧ e = .notFinite x ∨
      ∃ y : Binary binary64, x = .finite y ∧ y.narrow? = none ∧ e = .pastSingle x := by
  unfold Double.toSingle
  cases x with
  | finite y => cases h : y.narrow? <;> simp [h, eq_comm]
  | nan => simp [eq_comm]
  | infinite negative => simp [eq_comm]

/-- A double is refused, with one of two errors, exactly if it is no number, infinite, or at least half a
step above the largest single. Any other is narrowed to the nearest single, of two equally near ones to
the one with the even mantissa, and keeps its sign. What stands for a single is narrowed to this single,
so narrowing a second time changes nothing. -/
theorem Double.toSingle_rounds (x : Double) :
    ((∃ e, x.toSingle = .error e) ↔ x = .nan ∨ (∃ negative, x = .infinite negative) ∨
        ∃ y, x = .finite y ∧ 2 ^ 128 - 2 ^ 103 ≤ |y.value|) ∧
      (∀ e, x.toSingle = .error e → e = .notFinite x ∨ e = .pastSingle x) ∧
      (∀ y, x = .finite y → |y.value| < 2 ^ 128 - 2 ^ 103 →
        ∃ s, x.toSingle = .ok s ∧ s.negative = y.negative ∧ s.IsNearest y.value) ∧
      (∀ (y : Binary binary64) (s : Single), x = .finite y → s.negative = y.negative →
        s.value = y.value → x.toSingle = .ok s) ∧
      ∀ s, x.toSingle = .ok s → (Double.finite s.widen).toSingle = .ok s := by
  refine ⟨⟨?_, ?_⟩, ?_, ?_, ?_, ?_⟩
  · rintro ⟨e, he⟩
    rcases toSingle_eq_error_iff.1 he with ⟨hinfinite, -⟩ | ⟨y, rfl, hnone, -⟩
    · cases x with
      | nan => exact .inl rfl
      | infinite negative => exact .inr (.inl ⟨negative, rfl⟩)
      | finite y => exact absurd rfl (hinfinite y)
    · rw [Binary.narrow?_eq_none_iff, ← Binary.abs_value] at hnone
      exact .inr (.inr ⟨y, rfl, hnone⟩)
  · rintro (rfl | ⟨negative, rfl⟩ | ⟨y, rfl, hy⟩)
    · exact ⟨_, rfl⟩
    · exact ⟨_, rfl⟩
    · rw [Binary.abs_value, ← Binary.narrow?_eq_none_iff] at hy
      exact ⟨_, toSingle_eq_error_iff.2 (.inr ⟨y, rfl, hy, rfl⟩)⟩
  · intro e he
    rcases toSingle_eq_error_iff.1 he with ⟨-, he⟩ | ⟨-, -, -, he⟩
    · exact .inl he
    · exact .inr he
  · rintro y rfl hy
    rw [Binary.abs_value] at hy
    obtain ⟨s, hs⟩ := Binary.exists_narrow? hy
    obtain ⟨hnegative, hrounding⟩ := Binary.narrow?_eq_some_iff.1 hs
    refine ⟨s, toSingle_eq_ok_iff.2 ⟨y, rfl, hs⟩, hnegative, ?_⟩
    rw [y.value_eq_signed, ← hnegative]
    exact hrounding.isNearest y.magnitude_nonneg
  · rintro y s rfl hnegative hvalue
    have hmagnitude : s.magnitude = y.magnitude := by
      rw [← Binary.abs_value, ← Binary.abs_value, hvalue]
    exact toSingle_eq_ok_iff.2 ⟨y, rfl, Binary.narrow?_of_single hnegative hmagnitude⟩
  · rintro s -
    exact toSingle_eq_ok_iff.2 ⟨s.widen, rfl, s.narrow?_widen⟩

/-- Halfway between one and the next single. -/
def halfwayAboveOne : Binary binary64 := ⟨false, 2 ^ 52 + 2 ^ 28, -52, by decide⟩

/-- Half a step above the largest single. -/
def halfwayAboveLargest : Binary binary64 := ⟨false, (2 ^ 25 - 1) * 2 ^ 28, 75, by decide⟩

/-- Of the two halfway points, one is rounded to the even mantissa, and the other one is refused. -/
theorem halfway_toSingle :
    (∃ s, (Double.finite halfwayAboveOne).toSingle = .ok s ∧ s.IsNearest halfwayAboveOne.value ∧
      s = ⟨false, 2 ^ 23, -23, by decide⟩) ∧
    ∃ e, (Double.finite halfwayAboveLargest).toSingle = .error e := by
  constructor
  · have hvalue : |halfwayAboveOne.value| < 2 ^ 128 - 2 ^ 103 := by
      norm_num [halfwayAboveOne, Binary.value, Binary.magnitude]
    obtain ⟨-, -, hrounds, -, -⟩ := (Double.finite halfwayAboveOne).toSingle_rounds
    obtain ⟨s, hs, -, hnearest⟩ := hrounds _ rfl hvalue
    have hone : (Double.finite halfwayAboveOne).toSingle = .ok ⟨false, 2 ^ 23, -23, by decide⟩ := by
      decide +kernel
    exact ⟨s, hs, hnearest, Except.ok.inj (hs.symm.trans hone)⟩
  · have hvalue : 2 ^ 128 - 2 ^ 103 ≤ |halfwayAboveLargest.value| := by
      norm_num [halfwayAboveLargest, Binary.value, Binary.magnitude]
    exact (Double.finite halfwayAboveLargest).toSingle_rounds.1.2 (.inr (.inr ⟨_, rfl, hvalue⟩))

/-! ### Past all singles -/

namespace Binary

/-- A double that cannot be narrowed is larger than every single. -/
theorem lt_of_narrow?_eq_none {x : Binary binary64} (h : x.narrow? = none) (s : Single) :
    s.magnitude < x.magnitude := by
  rw [narrow?_eq_none_iff, ← overflow_binary32] at h
  exact (BinaryFormat.lt_overflow BinaryFormat.binary32_isProper s.isRoundingOf_magnitude).trans_le h

/-- An integer that is no larger than a double has a nearest one, which is no larger. -/
theorem exists_ofInt?_le {n : Int} (y : Binary binary64) (h : |(n : ℚ)| ≤ y.magnitude) :
    ∃ x, ofInt? n = some x ∧ x.magnitude ≤ y.magnitude := by
  have hproper := BinaryFormat.binary64_isProper
  have hle : (n.natAbs : ℚ) / (1 : ℕ) ≤ y.magnitude := by
    rw [Nat.cast_one, div_one, Nat.cast_natAbs, Int.cast_abs]
    exact h
  have hlt := hle.trans_lt (BinaryFormat.lt_overflow hproper y.isRoundingOf_magnitude)
  obtain ⟨x, hx⟩ := BinaryFormat.exists_round hproper Nat.one_pos (decide (n < 0)) hlt
  have hrounding := (BinaryFormat.isRoundingOf_of_round hproper Nat.one_pos hx).2
  exact ⟨x, hx, hrounding.magnitude_le y.isRoundingOf_magnitude hle⟩

end Binary

/-- The number that a number of a document stands for: none unless it is finite. -/
def Number.value? : Number → Option ℚ
  | .integer n => some n
  | .double (.finite x) => some x.value
  | .double _ => none

/-- If the number stands for anything at all, it is larger than every single. -/
def Number.IsPastSingles (n : Number) : Prop := ∀ q, n.value? = some q → ∀ s : Single, |s.value| < |q|

theorem Number.isPastSingles_of_not_finite {x : Double} (h : ∀ y, x ≠ .finite y) :
    (Number.double x).IsPastSingles := by
  intro q hq
  cases x with
  | finite y => exact absurd rfl (h y)
  | _ => cases hq

theorem Number.isPastSingles_double {x : Binary binary64} (h : x.narrow? = none) :
    (Number.double (.finite x)).IsPastSingles := by
  rintro q ⟨⟩ s
  rw [Binary.abs_value, Binary.abs_value]
  exact Binary.lt_of_narrow?_eq_none h s

/-- An integer is rounded to a double first, but this takes nothing past the singles. -/
theorem Number.isPastSingles_integer {n : Int}
    (h : ∀ x, Binary.ofInt? n = some x → x.narrow? = none) : (Number.integer n).IsPastSingles := by
  rintro q ⟨⟩ s
  apply lt_of_not_ge
  intro hle
  rw [Binary.abs_value, ← Binary.magnitude_widen] at hle
  obtain ⟨x, hx, hxs⟩ := Binary.exists_ofInt?_le s.widen hle
  have hlt := Binary.lt_of_narrow?_eq_none (h x hx) s
  rw [Binary.magnitude_widen] at hxs
  exact absurd hlt (not_lt_of_ge hxs)

end LootTables
