import LootTables.Proofs.Json.Integers
import LootTables.Proofs.Number.Interval
import LootTables.Number.Layout

/-!
# Fixed-point literals

A literal has one spelling: a sign for a negative number, the integer part, a point, one digit and an `F`
(`FixedPoint`). Every number of tenths has a literal (`FixedPoint.ofTenths`), which stands for this number
(`FixedPoint.tenths_ofTenths`).
-/

namespace LootTables

-- A power is that of the natural numbers, also where a more general one is known.
attribute [local instance (high)] instPowNat

/-- A literal, taken apart. -/
structure FixedPoint where
  negative : Bool
  whole : Text
  tenth : CodePoint
  whole_ne_nil : whole ≠ []
  isDigit_of_mem_whole : ∀ c ∈ whole, c.isDigit
  isDigit_tenth : tenth.isDigit
  /-- The only integer part that begins with a zero is the zero. -/
  length_of_zero : ∀ digits : Text, whole = (('0' : Char) : CodePoint) :: digits → digits = []

namespace FixedPoint

/-- How the literal is written. -/
def text (p : FixedPoint) : Text := signText p.negative ++ p.whole ++ "." ++ [p.tenth] ++ "F"

/-- The magnitude of the literal in tenths. -/
def tenths (p : FixedPoint) : ℕ := Text.natOfDigits (p.whole ++ [p.tenth])

/-- The number that the literal stands for. -/
def value (p : FixedPoint) : ℚ := Binary.signed p.negative (p.tenths / 10)

/-- The literal with the other sign. -/
def neg (p : FixedPoint) : FixedPoint := { p with negative := !p.negative }

end FixedPoint

/-! ### The literal of a number of tenths -/

theorem Text.natOfDigits_append_singleton (s : Text) (c : CodePoint) :
    natOfDigits (s ++ [c]) = 10 * natOfDigits s + c.digitValue := by
  simp [natOfDigits]

theorem Text.ofNat_of_lt {n : ℕ} (h : n < 10) : ofNat n = [CodePoint.ofChar (Nat.digitChar n)] := by
  unfold ofNat
  rw [Nat.toDigits_of_lt_base h]
  rfl

/-- A numeral that begins with a zero is the numeral of zero. -/
theorem Text.eq_nil_of_ofNat_eq_zero_cons {n : ℕ} {digits : Text}
    (h : ofNat n = (('0' : Char) : CodePoint) :: digits) : digits = [] := by
  by_contra hne
  have hpos : 0 < digits.length := List.length_pos_iff.2 hne
  have hdigits : ∀ c ∈ digits, c.isDigit := fun c hc =>
    isDigit_of_mem_ofNat (h ▸ List.mem_cons_of_mem _ hc)
  have hvalue : n = natOfDigits digits := by
    rw [← natOfDigits_ofNat n, h]
    rfl
  have hlt : n < 10 ^ digits.length := hvalue ▸ Json.natOfDigits_lt hdigits
  have hlength := (length_ofNat_le_iff hpos).2 hlt
  rw [h, List.length_cons] at hlength
  omega

namespace FixedPoint

/-- The literal of `± tenths / 10`. -/
def ofTenths (negative : Bool) (tenths : ℕ) : FixedPoint where
  negative := negative
  whole := Text.ofNat (tenths / 10)
  tenth := CodePoint.ofChar (Nat.digitChar (tenths % 10))
  whole_ne_nil := Text.ofNat_ne_nil _
  isDigit_of_mem_whole _ h := Text.isDigit_of_mem_ofNat h
  isDigit_tenth := by
    have hmem := List.mem_singleton.2 (rfl : CodePoint.ofChar (Nat.digitChar (tenths % 10)) = _)
    rw [← Text.ofNat_of_lt (Nat.mod_lt _ (by decide))] at hmem
    exact Text.isDigit_of_mem_ofNat hmem
  length_of_zero _ h := Text.eq_nil_of_ofNat_eq_zero_cons h

theorem text_ofTenths (negative : Bool) (tenths : ℕ) :
    (ofTenths negative tenths).text =
      signText negative ++ Text.ofNat (tenths / 10) ++ "." ++ Text.ofNat (tenths % 10) ++ "F" := by
  rw [Text.ofNat_of_lt (Nat.mod_lt tenths (by decide))]
  rfl

theorem tenths_ofTenths (negative : Bool) (tenths : ℕ) : (ofTenths negative tenths).tenths = tenths := by
  have htenth : Text.natOfDigits (Text.ofNat (tenths % 10)) = tenths % 10 := Text.natOfDigits_ofNat _
  rw [Text.ofNat_of_lt (Nat.mod_lt tenths (by decide)), ← List.nil_append [_],
    Text.natOfDigits_append_singleton] at htenth
  have hdigit : (CodePoint.ofChar (Nat.digitChar (tenths % 10))).digitValue = tenths % 10 := by
    rwa [show Text.natOfDigits [] = 0 from rfl, Nat.mul_zero, Nat.zero_add] at htenth
  calc (ofTenths negative tenths).tenths
      = 10 * Text.natOfDigits (Text.ofNat (tenths / 10)) + _ := Text.natOfDigits_append_singleton _ _
    _ = 10 * (tenths / 10) + tenths % 10 := by rw [Text.natOfDigits_ofNat]; exact congrArg _ hdigit
    _ = tenths := Nat.div_add_mod tenths 10

end FixedPoint

end LootTables
