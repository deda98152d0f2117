import LootTables.Number.Decimal

/-!
# How doubles are written

A double is written with the fewest digits that read back to it. The layout of these digits is a
matter of taste, and the taste of this library is one value, `doubleLayout`: plain notation for
numbers from `10 ^ -4` up to `10 ^ 16`, always with a digit after the point; otherwise one digit
before the point and a signed exponent of at least two digits.
-/

namespace LootTables

/-- Where plain notation starts and stops, and how wide an exponent is at least. -/
structure DecimalLayout where
  /-- The least exponent of a leading digit in plain notation. -/
  plainFrom : Int
  /-- The first exponent of a leading digit that is no longer in plain notation. -/
  plainBelow : Int
  /-- The least number of digits of a written exponent. -/
  exponentWidth : Nat

/-- The layout of doubles: `0.0001` and `9999999999999998.0`, but `1e-05` and `1e+16`. -/
def doubleLayout : DecimalLayout := ⟨-4, 16, 2⟩

/-- The digits of a decimal without a point, `exponent` being that of the last digit. -/
def DecimalLayout.plain (digits : Text) (exponent : Int) : Text :=
  if 0 ≤ exponent then digits ++ Text.zeros exponent.toNat ++ ".0"
  else
    let places := (-exponent).toNat
    if places < digits.length then
      let whole := digits.length - places
      digits.take whole ++ ("." : Text) ++ digits.drop whole
    else "0." ++ Text.zeros (places - digits.length) ++ digits

/-- The digits with a point after the first and `exponent`, that of the first digit, at the end. -/
def DecimalLayout.scientific (l : DecimalLayout) (digits : Text) (exponent : Int) : Text :=
  let point : Text := if digits.length ≤ 1 then [] else "."
  let mark : Text := if exponent < 0 then "e-" else "e+"
  let magnitude := Text.ofNat exponent.natAbs
  digits.take 1 ++ point ++ digits.drop 1 ++ mark
    ++ Text.zeros (l.exponentWidth - magnitude.length) ++ magnitude

/-- The text of a decimal. -/
def DecimalLayout.text (l : DecimalLayout) (d : Decimal) : Text :=
  let digits := Text.ofNat d.digits
  let leading := d.exponent + digits.length - 1
  if l.plainFrom ≤ leading ∧ leading < l.plainBelow then DecimalLayout.plain digits d.exponent
  else l.scientific digits leading

/-- A sign or nothing, in front of a magnitude. -/
def signText (negative : Bool) : Text := if negative then "-" else []

/-- The text of a double. -/
def Double.text : Double → Text
  | .nan => "nan"
  | .infinite negative => signText negative ++ "inf"
  | .finite x => signText x.negative ++ doubleLayout.text x.shortest

end LootTables
