import LootTables.Proofs.Json.Integers
import LootTables.Proofs.Number.FixedPoint
import LootTables.Proofs.Number.Reading

/-!
# Numbers as they are written

A number is written with a sign or none, digits, a fraction or none and an exponent or none
(`NumberText`), and it stands for a rational number that can be read off its parts
(`NumberText.value`). What a document means by it is another matter (`NumberText.Spells`): without a
fraction and an exponent an integer, of which the digits are limited, and else the double nearest to
the value.

The reader takes such a text off the front of whatever it stands at, provided that the rest does not go
on with a mark of numbers (`readNumber_text`).
-/

namespace LootTables.Json

-- A power is that of the natural numbers, also where a more general one is known.
attribute [local instance (high)] instPowNat

/-! ### The parts of a number -/

/-- An exponent: its letter, its sign if it has one, and its digits. -/
structure ExponentText where
  letter : CodePoint
  sign : Text
  digits : Text
  letter_mem : letter ∈ ([('e' : Char), ('E' : Char)] : List CodePoint)
  sign_mem : sign ∈ ([[], "+", "-"] : List Text)
  digits_ne_nil : digits ≠ []
  isDigit : ∀ c ∈ digits, c.isDigit

/-- The text of a number in parts. The fraction is empty when there is no point. -/
structure NumberText where
  negative : Bool
  whole : Text
  fraction : Text
  exponent : Option ExponentText
  whole_ne_nil : whole ≠ []
  whole_isDigit : ∀ c ∈ whole, c.isDigit
  /-- A zero is not followed by more digits. -/
  whole_zero : whole.head? = some (('0' : Char) : CodePoint) → whole = "0"
  fraction_isDigit : ∀ c ∈ fraction, c.isDigit

/-- What an exponent adds to a text. -/
def ExponentText.text (e : ExponentText) : Text := e.letter :: (e.sign ++ e.digits)

def ExponentText.value (e : ExponentText) : Int :=
  let n : Int := Text.natOfDigits e.digits
  if e.sign = "-" then -n else n

namespace NumberText

variable (x : NumberText)

/-- The sign, if the number has one. -/
def signText : Text := if x.negative then "-" else []

/-- The point and the fraction, if the number has one. -/
def fractionText : Text := if x.fraction = [] then [] else '.' :: x.fraction

def exponentText : Text := x.exponent.elim [] ExponentText.text

/-- The number as it is written. -/
def text : Text := x.signText ++ (x.whole ++ (x.fractionText ++ x.exponentText))

def exponentValue : Int := x.exponent.elim 0 ExponentText.value

/-- What the number stands for, without its sign. -/
def magnitude : ℚ :=
  (Text.natOfDigits x.whole + Text.natOfDigits x.fraction / 10 ^ x.fraction.length)
    * 10 ^ x.exponentValue

/-- What the number stands for. -/
def value : ℚ := Binary.signed x.negative x.magnitude

/-- There is neither a fraction nor an exponent. -/
def IsInteger : Prop := x.fraction = [] ∧ x.exponent = none

instance : Decidable x.IsInteger := inferInstanceAs (Decidable (_ ∧ _))

/-- The number is what a document means by this text: an integer with its value, or the double with its
sign to which its magnitude is rounded, which is an infinity when the magnitude is past all doubles. -/
def Spells : Number → Prop
  | .integer n => x.IsInteger ∧ x.whole.length ≤ numeralLimit ∧ x.value = n
  | .double (.finite d) => ¬ x.IsInteger ∧ d.negative = x.negative ∧ d.IsRoundingOf x.magnitude
  | .double (.infinite negative) =>
    ¬ x.IsInteger ∧ negative = x.negative ∧ binary64.overflow ≤ x.magnitude
  | .double .nan => False

end NumberText

/-! ### Digits -/

/-- The rest of a text does not go on with a number that ends before it. -/
def EndsNumber (r : Text) : Prop :=
  ∀ c, r.head? = some c → ¬ c.isDigit ∧ c ∉ ([('.' : Char), ('e' : Char), ('E' : Char)] : List CodePoint)

/-- The rest of a text does not begin with a digit. -/
def EndsDigits (r : Text) : Prop := ∀ c, r.head? = some c → ¬ c.isDigit

theorem EndsNumber.endsDigits {r : Text} (h : EndsNumber r) : EndsDigits r := fun c hc => (h c hc).1

/-- Digits are read up to the first other character. -/
theorem spanDigits_append {ds r : Text} (hds : ∀ c ∈ ds, c.isDigit) (hr : EndsDigits r) :
    spanDigits (ds ++ r) = (ds, r) := by
  unfold spanDigits
  rw [List.span_eq_takeWhile_dropWhile, List.takeWhile_append_of_pos hds,
    List.dropWhile_append_of_pos hds]
  cases r with
  | nil => simp
  | cons c r => simp [hr c rfl]

theorem natOfDigits_append (s t : Text) :
    Text.natOfDigits (s ++ t) = Text.natOfDigits s * 10 ^ t.length + Text.natOfDigits t := by
  induction t using List.reverseRecOn with
  | nil => simp [Text.natOfDigits]
  | append_singleton t c ih =>
    rw [← List.append_assoc, Text.natOfDigits_append_singleton, ih,
      Text.natOfDigits_append_singleton, List.length_append, List.length_singleton, Nat.pow_succ]
    ring

/-! ### Reading the parts -/

theorem readWhole_append (x : NumberText) {r : Text} (hr : EndsDigits r) :
    readWhole (x.whole ++ r) = some (x.whole, r) := by
  obtain ⟨c, ds, hwhole⟩ := List.exists_cons_of_ne_nil x.whole_ne_nil
  have hdigits := x.whole_isDigit
  have hzero := x.whole_zero
  rw [hwhole] at hdigits hzero ⊢
  unfold readWhole
  rw [List.cons_append]
  dsimp only
  by_cases hc : c = (('0' : Char) : CodePoint)
  · obtain ⟨-, rfl⟩ := List.cons.inj (hzero (congrArg some hc))
    rw [if_pos hc, hc]
    rfl
  · rw [if_neg hc, if_pos (hdigits c List.mem_cons_self), ← List.cons_append,
      spanDigits_append hdigits hr]

/-- A text that goes on with no point has no fraction. -/
theorem readFraction_of_ne {r : Text} (h : r.head? ≠ some (('.' : Char) : CodePoint)) :
    readFraction r = (none, r) := by
  match r with
  | [] | [_] => rfl
  | c :: d :: r =>
    have hc : c ≠ '.' := fun hc => h (congrArg some hc)
    rw [readFraction, if_neg fun hpoint => hc hpoint.1]

theorem readFraction_append {ds r : Text} (hne : ds ≠ []) (hds : ∀ c ∈ ds, c.isDigit)
    (hr : EndsDigits r) :
    readFraction ((('.' : Char) : CodePoint) :: (ds ++ r)) = (some ds, r) := by
  obtain ⟨d, ds, rfl⟩ := List.exists_cons_of_ne_nil hne
  rw [List.cons_append, readFraction, if_pos ⟨rfl, hds d List.mem_cons_self⟩, ← List.cons_append,
    spanDigits_append hds hr]

/-- A text that goes on with no letter of exponents has none. -/
theorem readExponent_of_ne {r : Text} (he : r.head? ≠ some (('e' : Char) : CodePoint))
    (hE : r.head? ≠ some (('E' : Char) : CodePoint)) : readExponent r = (none, r) := by
  match r with
  | [] => rfl
  | c :: r =>
    have hc : ¬ (c = (('e' : Char) : CodePoint) ∨ c = (('E' : Char) : CodePoint)) := by
      rintro (hc | hc)
      · exact he (congrArg some hc)
      · exact hE (congrArg some hc)
    unfold readExponent
    exact if_neg hc

theorem readExponent_append (e : ExponentText) {r : Text} (hr : EndsDigits r) :
    readExponent (e.text ++ r) = (some e.value, r) := by
  have hletter : e.letter = (('e' : Char) : CodePoint) ∨ e.letter = (('E' : Char) : CodePoint) := by
    simpa using e.letter_mem
  have hsign : e.sign = [] ∨ e.sign = "+" ∨ e.sign = "-" := by simpa using e.sign_mem
  have hspan := spanDigits_append e.isDigit hr
  obtain ⟨d, ds, hdigits⟩ := List.exists_cons_of_ne_nil e.digits_ne_nil
  -- Digits are no sign, so an exponent without one is read from its digits on.
  have hdigit : ∀ c, ¬ c.isDigit → d ≠ c := by
    rintro c hc rfl
    exact hc (e.isDigit d (hdigits ▸ List.mem_cons_self))
  rw [hdigits] at hspan
  unfold readExponent ExponentText.text ExponentText.value
  rw [List.cons_append, List.append_assoc, hdigits]
  rcases hsign with hsign | hsign | hsign
  · rw [hsign, List.nil_append]
    simp only [List.cons_append] at hspan ⊢
    simp only [if_pos hletter, if_neg (hdigit '-' (by decide)), if_neg (hdigit '+' (by decide)), hspan]
    rfl
  · have hplus : ("+" : Text) ++ (d :: ds ++ r) = (('+' : Char) : CodePoint) :: (d :: ds ++ r) := rfl
    have hne : (('+' : Char) : CodePoint) ≠ '-' := by decide
    rw [hsign, hplus]
    simp only [if_pos hletter, if_neg hne, if_true, hspan]
    rfl
  · have hminus : ("-" : Text) ++ (d :: ds ++ r) = (('-' : Char) : CodePoint) :: (d :: ds ++ r) := rfl
    rw [hsign, hminus]
    simp only [if_pos hletter, if_true, hspan]

/-! ### Reading a number -/

namespace NumberText

variable (x : NumberText)

/-- The decimal with the digits of the number. -/
def decimal : Decimal :=
  ⟨Text.natOfDigits (x.whole ++ x.fraction), x.exponentValue - x.fraction.length⟩

theorem value_decimal : x.decimal.value = x.magnitude := by
  unfold decimal Decimal.value magnitude
  rw [natOfDigits_append, zpow_sub₀ (by norm_num), zpow_natCast]
  push_cast
  field_simp

variable {x}

/-- A text that does not spell an integer spells the double that its decimal is read as. -/
theorem Spells.ofDecimal_eq {d : Double} (h : x.Spells (.double d)) :
    ¬ x.IsInteger ∧ Double.ofDecimal x.negative x.decimal = d := by
  cases d with
  | nan => exact h.elim
  | finite d =>
    obtain ⟨hinteger, hnegative, hrounding⟩ := h
    rw [← x.value_decimal] at hrounding
    exact ⟨hinteger, Double.ofDecimal_eq_finite_iff.2 ⟨hnegative, hrounding⟩⟩
  | infinite negative =>
    obtain ⟨hinteger, rfl, hover⟩ := h
    rw [← x.value_decimal] at hover
    rcases Double.ofDecimal_cases x.negative x.decimal with ⟨y, -, -, hrounding⟩ | ⟨hinfinite, -⟩
    · exact absurd (BinaryFormat.lt_overflow BinaryFormat.binary64_isProper hrounding) (not_lt_of_ge hover)
    · exact ⟨hinteger, hinfinite⟩

/-- Without a fraction and an exponent only the digits count. -/
theorem IsInteger.value_eq (h : x.IsInteger) :
    x.value = ((if x.negative then -(Text.natOfDigits x.whole : Int)
      else Text.natOfDigits x.whole : Int) : ℚ) := by
  obtain ⟨hfraction, hexponent⟩ := h
  have hmagnitude : x.magnitude = Text.natOfDigits x.whole := by
    simp [magnitude, exponentValue, hfraction, hexponent, Text.natOfDigits]
  rw [value, hmagnitude, Binary.signed]
  split <;> simp

/-- The digits of an integer, after its sign. -/
def ofInt (n : Int) : NumberText where
  negative := n < 0
  whole := Text.ofNat n.natAbs
  fraction := []
  exponent := none
  whole_ne_nil := Text.ofNat_ne_nil n.natAbs
  whole_isDigit _ := Text.isDigit_of_mem_ofNat
  whole_zero h := by
    obtain ⟨digits, hdigits⟩ := List.head?_eq_some_iff.1 h
    rw [hdigits, Text.eq_nil_of_ofNat_eq_zero_cons hdigits]
    rfl
  fraction_isDigit := List.forall_mem_nil _

theorem isInteger_ofInt (n : Int) : (ofInt n).IsInteger := ⟨rfl, rfl⟩

theorem value_ofInt (n : Int) : (ofInt n).value = n := by
  rw [(isInteger_ofInt n).value_eq, Int.cast_inj]
  have hdigits : Text.natOfDigits (ofInt n).whole = n.natAbs := Text.natOfDigits_ofNat n.natAbs
  rw [hdigits]
  split
  · next h =>
    have hneg := of_decide_eq_true h
    omega
  · next h =>
    have hnonneg := of_decide_eq_false (Bool.eq_false_of_not_eq_true h)
    omega

/-- Each integer that is not too long has a text. -/
theorem spells_ofInt {n : Int} (h : (Text.ofNat n.natAbs).length ≤ numeralLimit) :
    (ofInt n).Spells (.integer n) :=
  ⟨isInteger_ofInt n, h, value_ofInt n⟩

end NumberText

section

variable {x : NumberText} {r : Text}

/-- An exponent, or what follows the number, begins neither with a digit nor with a point. -/
theorem NumberText.exponentText_head (hr : EndsNumber r) {c : CodePoint}
    (hc : (x.exponentText ++ r).head? = some c) : ¬ c.isDigit ∧ c ≠ '.' := by
  unfold exponentText at hc
  cases hexponent : x.exponent with
  | none =>
    rw [hexponent] at hc
    obtain ⟨hdigit, hmarks⟩ := hr c hc
    exact ⟨hdigit, fun hpoint => hmarks (hpoint ▸ List.mem_cons_self)⟩
  | some e =>
    rw [hexponent] at hc
    obtain rfl : e.letter = c := Option.some.inj hc
    have hletters : ∀ c ∈ ([('e' : Char), ('E' : Char)] : List CodePoint), ¬ c.isDigit ∧ c ≠ '.' := by
      decide
    exact hletters e.letter e.letter_mem

theorem NumberText.readExponent_text (hr : EndsNumber r) :
    readExponent (x.exponentText ++ r) = (x.exponent.map ExponentText.value, r) := by
  unfold exponentText
  cases x.exponent with
  | none =>
    refine readExponent_of_ne (fun he => ?_) (fun hE => ?_)
    · exact absurd (hr _ he).2 (by decide)
    · exact absurd (hr _ hE).2 (by decide)
  | some e => exact readExponent_append e hr.endsDigits

theorem NumberText.readFraction_text (hr : EndsNumber r) :
    readFraction (x.fractionText ++ (x.exponentText ++ r)) =
      (if x.fraction = [] then none else some x.fraction, x.exponentText ++ r) := by
  unfold fractionText
  split
  · exact readFraction_of_ne fun hpoint => (x.exponentText_head hr hpoint).2 rfl
  · next hne => exact readFraction_append hne x.fraction_isDigit fun c hc => (x.exponentText_head hr hc).1

theorem NumberText.readWhole_text (hr : EndsNumber r) :
    readWhole (x.whole ++ (x.fractionText ++ (x.exponentText ++ r))) =
      some (x.whole, x.fractionText ++ (x.exponentText ++ r)) := by
  refine readWhole_append x fun c hc => ?_
  unfold fractionText at hc
  split at hc
  · exact (x.exponentText_head hr hc).1
  · cases hc
    decide

/-- The sign is taken off first. -/
theorem NumberText.exists_text_append (x : NumberText) (r : Text) :
    ∃ c t, x.text ++ r = c :: t ∧ (if c = (('-' : Char) : CodePoint) then (true, t) else (false, c :: t)) =
      (x.negative, x.whole ++ (x.fractionText ++ (x.exponentText ++ r))) := by
  unfold text signText
  simp only [List.append_assoc]
  cases x.negative with
  | true => exact ⟨_, _, rfl, rfl⟩
  | false =>
    obtain ⟨c, ds, hwhole⟩ := List.exists_cons_of_ne_nil x.whole_ne_nil
    have hminus : c ≠ (('-' : Char) : CodePoint) := by
      rintro rfl
      exact absurd (x.whole_isDigit _ (hwhole ▸ List.mem_cons_self)) (by decide)
    rw [hwhole]
    exact ⟨c, _, rfl, if_neg hminus⟩

/-- A number is read off the front of a text that goes on with something else. -/
theorem readNumber_text {n : Number} (h : x.Spells n) (hr : EndsNumber r) :
    readNumber (x.text ++ r) = .ok (n, r) := by
  obtain ⟨c, t, htext, hsign⟩ := x.exists_text_append r
  unfold readNumber
  rw [htext]
  simp only [hsign, x.readWhole_text hr, x.readFraction_text hr, x.readExponent_text hr]
  cases n with
  | integer n =>
    obtain ⟨hinteger, hlength, hvalue⟩ := h
    rw [hinteger.value_eq, Int.cast_inj] at hvalue
    rw [hinteger.1, hinteger.2]
    simp only [if_true, Option.map_none, readNumeral, if_neg (Nat.not_lt.2 hlength)]
    rw [hvalue]
  | double d =>
    obtain ⟨hinteger, hd⟩ := h.ofDecimal_eq
    have hfraction : (if x.fraction = [] then none else some x.fraction).getD [] = x.fraction := by
      split
      · next hnil => exact hnil.symm
      · rfl
    have hexponent : (x.exponent.map ExponentText.value).getD 0 = x.exponentValue := by
      unfold NumberText.exponentValue
      cases x.exponent <;> rfl
    split
    -- It is read as an integer only when the fraction and the exponent are both missing.
    · next hnone hnone' =>
      refine absurd ⟨?_, Option.map_eq_none_iff.1 hnone'⟩ hinteger
      by_contra hne
      rw [if_neg hne] at hnone
      cases hnone
    · rw [hfraction, hexponent, ← hd]
      rfl

theorem endsNumber_nil : EndsNumber [] := nofun

/-- What a text spells is determined by it. -/
theorem NumberText.Spells.unique {m n : Number} (hm : x.Spells m) (hn : x.Spells n) : m = n := by
  have hread := (readNumber_text hm endsNumber_nil).symm.trans (readNumber_text hn endsNumber_nil)
  exact (Prod.mk.inj (Except.ok.inj hread)).1

end

end LootTables.Json
