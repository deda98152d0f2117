import LootTables.Proofs.Text.Cut
import Mathlib.Algebra.Group.Nat.Defs
import LootTables.Number.Integer

/-!
# Decimal numerals

A numeral consists of digits and perhaps a minus sign, so it ends before any other mark, and it
denotes one number only (`ofInt_injective`). How long it is says how large the number is
(`length_ofNat_le_iff`), and that is all that the limit on numerals asks for
(`writeNumeral_eq_ok_iff`).
-/

namespace LootTables

namespace Text

/-! ### Natural numbers -/

/-- Reading a numeral takes writing it back. -/
theorem natOfDigits_ofNat (n : Nat) : natOfDigits (ofNat n) = n := by
  have hchars : ∀ (cs : List Char) (a : Nat), (cs.map CodePoint.ofChar).foldl
      (fun n c => 10 * n + c.digitValue) a = Nat.ofDigitChars 10 cs a := by
    intro cs
    induction cs with
    | nil => exact fun a => rfl
    | cons c cs ih => exact fun a => ih _
  unfold natOfDigits ofNat
  rw [hchars, Nat.ofDigitChars_ten_toDigits]

theorem ofNat_injective {m n : Nat} (h : ofNat m = ofNat n) : m = n := by
  rw [← natOfDigits_ofNat m, h, natOfDigits_ofNat]

theorem ofNat_ne_nil (n : Nat) : ofNat n ≠ [] := by
  unfold ofNat
  rw [ne_eq, List.map_eq_nil_iff]
  exact Nat.toDigits_ne_nil

theorem isDigit_of_mem_ofNat {n : Nat} {c : CodePoint} (h : c ∈ ofNat n) : c.isDigit := by
  obtain ⟨d, hd, rfl⟩ := List.mem_map.1 h
  have hdigit := Nat.isDigit_of_mem_toDigits (by decide) (by decide) hd
  exact decide_eq_true (Char.isDigit_iff_toNat.1 hdigit)

theorem length_ofNat (n : Nat) : (ofNat n).length = (Nat.toDigits 10 n).length := by
  simp [ofNat]

/-- A numeral has at most `k` digits exactly if the number lies below `10 ^ k`. -/
theorem length_ofNat_le_iff {n k : Nat} (hk : 0 < k) : (ofNat n).length ≤ k ↔ n < 10 ^ k := by
  rw [length_ofNat, Nat.length_toDigits_le_iff (by decide) hk]

/-! ### Integers -/

/-- A code point of numerals: a digit, or the minus sign. -/
def IsNumeral (c : CodePoint) : Prop := c.isDigit ∨ c = '-'

instance (c : CodePoint) : Decidable (IsNumeral c) := inferInstanceAs (Decidable (_ ∨ _))

theorem isNumeral_of_mem_ofInt {n : Int} {c : CodePoint} (h : c ∈ ofInt n) : IsNumeral c := by
  cases n with
  | ofNat n => exact .inl (isDigit_of_mem_ofNat h)
  | negSucc n =>
    rcases List.mem_cons.1 h with rfl | h
    · exact .inr rfl
    · exact .inl (isDigit_of_mem_ofNat h)

theorem avoids_ofInt {marks : List CodePoint} (h : ∀ c ∈ marks, ¬ IsNumeral c) (n : Int) :
    Avoids marks (ofInt n) := fun c hc hmark => h c hmark (isNumeral_of_mem_ofInt hc)

/-- The numeral of a natural number does not begin with a minus sign. -/
theorem ofNat_ne_minus {n : Nat} {s : Text} : ofNat n ≠ (('-' : Char) : CodePoint) :: s := by
  intro h
  have hminus : (('-' : Char) : CodePoint) ∈ ofNat n := h ▸ List.mem_cons_self
  exact absurd (isDigit_of_mem_ofNat hminus) (by decide)

theorem ofInt_injective {m n : Int} (h : ofInt m = ofInt n) : m = n := by
  cases m with
  | ofNat m =>
    cases n with
    | ofNat n => rw [ofNat_injective h]
    | negSucc n => exact absurd h ofNat_ne_minus
  | negSucc m =>
    cases n with
    | ofNat n => exact absurd h.symm ofNat_ne_minus
    | negSucc n =>
      have hsucc := ofNat_injective (List.cons.inj h).2
      rw [Nat.succ.inj hsucc]

end Text

/-! ### The limit -/

theorem writeNumeral_eq_ok_iff {n : Int} {s : Text} :
    writeNumeral n = .ok s ↔ n.natAbs < 10 ^ numeralLimit ∧ s = Text.ofInt n := by
  unfold writeNumeral
  rw [← Text.length_ofNat_le_iff (by decide)]
  split
  · next h => simp [Nat.not_le.2 h]
  · next h => simp [Nat.not_lt.1 h, eq_comm]

end LootTables
