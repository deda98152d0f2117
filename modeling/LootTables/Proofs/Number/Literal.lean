import Mathlib.Algebra.Order.Floor.Semifield
import Mathlib.Data.Rat.Floor
import LootTables.Proofs.Number.FixedPoint
import LootTables.Proofs.Number.Narrowing
import LootTables.Proofs.Number.Shortest
import LootTables.Proofs.Result

/-!
# Literals

Every single has a literal (`Single.literal_eq`): the shortest decimal of a single is not past the power
of two after the largest single, so that its tenths have far fewer digits than literals are allowed.

A literal is written with digits, a minus sign, a point and an `F`, and so ends before any other
mark (`Number.avoids_literal`).
-/

namespace LootTables

-- A power is that of the natural numbers, also where a more general one is known.
attribute [local instance (high)] instPowNat

/-! ### Tenths -/

/-- The tenths of a decimal are those of its value, rounded half up. -/
theorem Decimal.tenths_eq (d : Decimal) : d.tenths = ⌊10 * d.value + 1 / 2⌋₊ := by
  unfold tenths value
  dsimp only
  split
  · next h =>
    obtain ⟨n, hn⟩ := Int.eq_ofNat_of_zero_le (show 0 ≤ d.exponent + 1 by omega)
    have hvalue : 10 * (d.digits * (10 : ℚ) ^ d.exponent) = (d.digits * 10 ^ n : ℕ) := by
      rw [show d.exponent = n - 1 by omega, zpow_sub_one₀ (by norm_num), zpow_natCast]
      push_cast
      ring
    rw [hvalue, show (d.exponent + 1).toNat = n by omega, eq_comm, Nat.floor_eq_iff (by positivity)]
    constructor <;> linarith
  · next h =>
    obtain ⟨n, hn⟩ := Int.eq_ofNat_of_zero_le (show 0 ≤ -1 - d.exponent by omega)
    have hvalue : 10 * (d.digits * (10 : ℚ) ^ d.exponent) + 1 / 2 =
        (2 * d.digits + 10 ^ n : ℕ) / (2 * 10 ^ n : ℕ) := by
      rw [show d.exponent = -n - 1 by omega, zpow_sub_one₀ (by norm_num), zpow_neg, zpow_natCast]
      push_cast
      field_simp
    rw [hvalue, show (-1 - d.exponent).toNat = n by omega, Nat.floor_div_eq_div]

/-! ### Every single has one -/

/-- The shortest decimal of a single lies below the power of two after the largest single. -/
theorem Single.shortest_lt (s : Single) : s.widen.shortest.value < 2 ^ 128 := by
  have hpow : binary64.pow 76 = 2 ^ 128 := by norm_num [BinaryFormat.pow]
  have hlt : s.widen.magnitude < binary64.pow 76 := by
    rw [Binary.magnitude_widen, hpow]
    exact s.magnitude_lt
  rw [← hpow]
  exact s.widen.isShortest_shortest.isRoundingOf.lt_pow BinaryFormat.binary64_isProper (by decide)
    (by decide) hlt

theorem Single.tenths_lt (s : Single) : s.widen.shortest.tenths < 10 ^ literalCapacity := by
  have hshortest := s.shortest_lt
  have hvalue := s.widen.shortest.value_nonneg
  rw [Decimal.tenths_eq, Nat.floor_lt (by positivity)]
  calc 10 * s.widen.shortest.value + 1 / 2 < 10 * 2 ^ 128 + 1 / 2 := by linarith
    _ < (10 ^ literalCapacity : ℕ) := by
        unfold literalCapacity
        norm_num

/-- A single has a literal exactly if its tenths keep within the capacity. -/
theorem Single.literal_eq_ok_iff {s : Single} {l : Text} :
    s.literal = .ok l ↔ digitCount s.widen.shortest.tenths ≤ literalCapacity ∧
      l = signText s.negative ++ Text.ofNat (s.widen.shortest.tenths / 10) ++ "."
        ++ Text.ofNat (s.widen.shortest.tenths % 10) ++ "F" := by
  unfold Single.literal
  dsimp only
  split
  · next h => simp [Nat.not_le.2 h]
  · next h => simp [Nat.not_lt.1 h, eq_comm]

/-- The literal of a single, taken apart. -/
def Single.fixedPoint (s : Single) : FixedPoint := .ofTenths s.negative s.widen.shortest.tenths

theorem Single.literal_eq (s : Single) : s.literal = .ok s.fixedPoint.text := by
  have hcount : digitCount s.widen.shortest.tenths ≤ literalCapacity :=
    (digitCount_le_iff (by decide)).2 s.tenths_lt
  exact s.literal_eq_ok_iff.2 ⟨hcount, FixedPoint.text_ofTenths _ _⟩

/-- The literal of a bound is that of its single. -/
theorem Number.literal_eq {n : Number} {s : Single} (h : n.toSingle = .ok s) :
    n.literal = .ok s.fixedPoint.text :=
  bind_eq_ok_iff.2 ⟨s, h, s.literal_eq⟩

/-! ### Where a literal ends -/

/-- A code point of literals. -/
def IsLiteral (c : CodePoint) : Prop := Text.IsNumeral c ∨ c = '.' ∨ c = 'F'

instance (c : CodePoint) : Decidable (IsLiteral c) := inferInstanceAs (Decidable (_ ∨ _ ∨ _))

theorem isLiteral_of_mem_signText {negative : Bool} {c : CodePoint} (h : c ∈ signText negative) :
    IsLiteral c := by
  cases negative with
  | false => cases h
  | true => exact .inl (.inr (List.mem_singleton.1 h))

theorem Single.isLiteral_of_mem {s : Single} {l : Text} (h : s.literal = .ok l) {c : CodePoint}
    (hc : c ∈ l) : IsLiteral c := by
  obtain ⟨-, rfl⟩ := s.literal_eq_ok_iff.1 h
  simp only [List.mem_append] at hc
  rcases hc with (((hsign | hwhole) | hpoint) | htenth) | hsuffix
  · exact isLiteral_of_mem_signText hsign
  · exact .inl (.inl (Text.isDigit_of_mem_ofNat hwhole))
  · exact .inr (.inl (List.mem_singleton.1 hpoint))
  · exact .inl (.inl (Text.isDigit_of_mem_ofNat htenth))
  · exact .inr (.inr (List.mem_singleton.1 hsuffix))

theorem Number.avoids_literal {n : Number} {l : Text} (h : n.literal = .ok l)
    {marks : List CodePoint} (hmarks : ∀ c ∈ marks, ¬ IsLiteral c) : l.Avoids marks := by
  obtain ⟨s, -, hs⟩ := bind_eq_ok_iff.1 h
  exact fun c hc hmark => hmarks c hmark (s.isLiteral_of_mem hs hc)

end LootTables
