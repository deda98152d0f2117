import LootTables.Proofs.Number.Literal

/-!
# What literals stand for

The literal of a double is the shortest decimal of its single, rounded half up to tenths
(`Double.literal_half_up`). The sign plays no part in this: it is in front of the literal, and the double
with the other sign has the same literal otherwise.

All steps from a double to its literal keep the order of magnitudes: the narrowing, because the intervals
of two singles do not overlap; the shortest decimal, because those of two doubles do not; and the rounding
to tenths. So literals are in the order of the doubles (`Single.fixedPoint_value_le`).
-/

namespace LootTables

-- A power is that of the natural numbers, also where a more general one is known.
attribute [local instance (high)] instPowNat

/-! ### The other sign -/

namespace Binary

variable {f : BinaryFormat}

/-- The number with the other sign. -/
def neg (x : Binary f) : Binary f := { x with negative := !x.negative }

theorem IsRoundingOf.neg {x : Binary f} {q : ℚ} (h : x.IsRoundingOf q) : x.neg.IsRoundingOf q :=
  ⟨h.lower, h.upper, h.even_of_lower, h.even_of_upper⟩

theorem narrow?_neg {x : Binary binary64} {s : Single} (h : x.narrow? = some s) :
    x.neg.narrow? = some s.neg := by
  obtain ⟨hnegative, hrounding⟩ := narrow?_eq_some_iff.1 h
  exact narrow?_eq_some_iff.2 ⟨congrArg not hnegative, hrounding.neg⟩

theorem widen_neg (s : Single) : s.neg.widen = s.widen.neg := by
  unfold widen
  split
  · next h => rw [dif_pos (show s.mantissa = 0 from h)]; rfl
  · next h => rw [dif_neg (show s.mantissa ≠ 0 from h)]; rfl

theorem shortest_neg (x : Binary f) : x.neg.shortest = x.shortest := rfl

end Binary

/-- The double with the other sign. -/
def Double.neg : Double → Double
  | .nan => .nan
  | .infinite negative => .infinite !negative
  | .finite x => .finite x.neg

theorem Double.toSingle_neg {x : Double} {s : Single} (h : x.toSingle = .ok s) :
    x.neg.toSingle = .ok s.neg := by
  obtain ⟨y, rfl, hy⟩ := toSingle_eq_ok_iff.1 h
  exact toSingle_eq_ok_iff.2 ⟨y.neg, rfl, Binary.narrow?_neg hy⟩

theorem Single.fixedPoint_neg (s : Single) : fixedPoint s.neg = s.fixedPoint.neg := by
  unfold fixedPoint
  rw [Binary.widen_neg, Binary.shortest_neg]
  rfl

/-! ### Half up -/

theorem Single.tenths_fixedPoint (s : Single) : s.fixedPoint.tenths = s.widen.shortest.tenths :=
  FixedPoint.tenths_ofTenths _ _

/-- Every double that is narrowed to a single has a literal, and this literal stands for the shortest
decimal of the single, rounded half up to tenths. It has the sign of the single, and that of the double
with the other sign is the same with the other sign. -/
theorem Double.literal_half_up {x : Double} {s : Single} (h : x.toSingle = .ok s) :
    (∃ d, s.widen.IsShortest d) ∧
      ∀ d, s.widen.IsShortest d → ∃ p : FixedPoint,
        (Number.double x).literal = .ok p.text ∧ p.negative = s.negative ∧
          p.tenths = ⌊10 * d.value + 1 / 2⌋₊ ∧ (Number.double x.neg).literal = .ok p.neg.text := by
  have hshortest := s.widen.isShortest_shortest
  refine ⟨⟨_, hshortest⟩, fun d hd => ⟨s.fixedPoint, Number.literal_eq h, rfl, ?_, ?_⟩⟩
  · rw [s.tenths_fixedPoint, Decimal.tenths_eq, hd.value_eq hshortest]
  · rw [← s.fixedPoint_neg]
    exact Number.literal_eq (Double.toSingle_neg h)

/-- The double nearest to `10 ^ 30`. -/
def nonillion : Binary binary64 := ⟨false, 7105427357601002, 47, by decide⟩

/-- The single nearest to it. -/
def nonillionSingle : Single := ⟨false, 13234890, 76, by decide⟩

theorem nonillion_toSingle : (Double.finite nonillion).toSingle = .ok nonillionSingle := by
  decide +kernel

/-- Its literal has all the digits of the shortest decimal, and zeros up to the point. -/
theorem nonillion_literal :
    ∃ p : FixedPoint, (Number.double (.finite nonillion)).literal = .ok p.text ∧
      p.tenths = 10000000150474662 * 10 ^ 15 ∧
      (Number.double (.finite nonillion.neg)).literal = .ok p.neg.text := by
  obtain ⟨-, hliteral⟩ := Double.literal_half_up nonillion_toSingle
  obtain ⟨p, hp, -, htenths, hneg⟩ := hliteral _ (Binary.isShortest_shortest _)
  refine ⟨p, hp, ?_, hneg⟩
  rw [htenths, ← Decimal.tenths_eq]
  decide +kernel

/-! ### The order of literals -/

section

variable {x y : Binary binary64} {s t : Single}

theorem Binary.shortest_value_le (h : x.magnitude ≤ y.magnitude) :
    x.shortest.value ≤ y.shortest.value := by
  rcases h.lt_or_eq with hlt | heq
  · exact (x.isShortest_shortest.isRoundingOf.lt y.isShortest_shortest.isRoundingOf hlt).le
  · -- The two are the same but for the sign.
    by_cases hsign : x.negative = y.negative
    · rw [eq_of_magnitude_eq hsign heq]
    · have hneg : x.neg.negative = y.negative := (Bool.eq_not_of_ne (Ne.symm hsign)).symm
      have hxy : x.neg = y := eq_of_magnitude_eq hneg heq
      rw [← hxy, shortest_neg]

/-- A larger double has more tenths in its literal. -/
theorem Single.tenths_le (hs : x.narrow? = some s) (ht : y.narrow? = some t)
    (h : x.magnitude ≤ y.magnitude) : s.fixedPoint.tenths ≤ t.fixedPoint.tenths := by
  have hst : s.magnitude ≤ t.magnitude :=
    (Binary.narrow?_eq_some_iff.1 hs).2.magnitude_le (Binary.narrow?_eq_some_iff.1 ht).2 h
  have hvalue : s.widen.shortest.value ≤ t.widen.shortest.value := by
    refine Binary.shortest_value_le ?_
    rwa [Binary.magnitude_widen, Binary.magnitude_widen]
  rw [s.tenths_fixedPoint, t.tenths_fixedPoint, Decimal.tenths_eq, Decimal.tenths_eq]
  exact Nat.floor_mono (by linarith)

theorem Single.tenths_of_zero (hs : x.narrow? = some s) (hx : x.magnitude = 0) :
    s.fixedPoint.tenths = 0 := by
  have hmantissa := (Binary.narrow?_eq_some_iff.1 hs).2.mantissa_eq_zero hx
  have hwiden : s.widen.shortest = ⟨0, 0⟩ := by
    unfold Binary.widen
    rw [dif_pos hmantissa]
    rfl
  rw [s.tenths_fixedPoint, hwiden]
  decide

/-- The literals of two doubles are in the order of the doubles. -/
theorem Single.fixedPoint_value_le (hs : x.narrow? = some s) (ht : y.narrow? = some t)
    (h : x.value ≤ y.value) : s.fixedPoint.value ≤ t.fixedPoint.value := by
  have hx := x.magnitude_nonneg
  have hy := y.magnitude_nonneg
  have hsnonneg : (0 : ℚ) ≤ s.fixedPoint.tenths := Nat.cast_nonneg _
  have htnonneg : (0 : ℚ) ≤ t.fixedPoint.tenths := Nat.cast_nonneg _
  have hsvalue : s.fixedPoint.value = Binary.signed x.negative (s.fixedPoint.tenths / 10) :=
    congrArg (Binary.signed · _) (Binary.narrow?_eq_some_iff.1 hs).1
  have htvalue : t.fixedPoint.value = Binary.signed y.negative (t.fixedPoint.tenths / 10) :=
    congrArg (Binary.signed · _) (Binary.narrow?_eq_some_iff.1 ht).1
  rw [x.value_eq_signed, y.value_eq_signed] at h
  rw [hsvalue, htvalue]
  cases hxsign : x.negative with
  | false =>
    cases hysign : y.negative with
    | false =>
      rw [hxsign, hysign, Binary.signed_false, Binary.signed_false] at h
      have hle : (s.fixedPoint.tenths : ℚ) ≤ t.fixedPoint.tenths := by
        exact_mod_cast Single.tenths_le hs ht h
      rw [Binary.signed_false, Binary.signed_false]
      linarith
    | true =>
      -- Both are zero.
      rw [hxsign, hysign, Binary.signed_false, Binary.signed_true] at h
      rw [Single.tenths_of_zero hs (by linarith), Single.tenths_of_zero ht (by linarith)]
      norm_num [Binary.signed]
  | true =>
    cases hysign : y.negative with
    | false =>
      rw [Binary.signed_true, Binary.signed_false]
      linarith
    | true =>
      rw [hxsign, hysign, Binary.signed_true, Binary.signed_true] at h
      have hle : (t.fixedPoint.tenths : ℚ) ≤ s.fixedPoint.tenths := by
        exact_mod_cast Single.tenths_le ht hs (by linarith)
      rw [Binary.signed_true, Binary.signed_true]
      linarith

end

end LootTables
