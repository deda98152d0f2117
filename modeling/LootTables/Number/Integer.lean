import LootTables.Text

/-!
# Integers and their numerals

Integers have any size, but a numeral has at most 4300 digits: longer ones are neither read nor
written, so that no document makes a conversion take quadratically long.
-/

namespace LootTables

/-- How many digits a numeral may have; the sign is not counted. -/
def numeralLimit : Nat := 4300

/-- A conversion between an integer and its numeral that is not done. -/
inductive NumeralError where
  /-- A numeral to be read has too many digits. -/
  | reading (digits : Nat)
  /-- The numeral to be written would have too many digits. -/
  | writing
deriving DecidableEq

/-- The wording of a refusal. -/
def NumeralError.message (e : NumeralError) : Text :=
  let detail : Text :=
    match e with
    | .reading digits => ": value has " ++ Text.ofNat digits ++ " digits"
    | .writing => []
  "Exceeds the limit (" ++ Text.ofNat numeralLimit ++ " digits) for integer string conversion"
    ++ detail ++ "; use sys.set_int_max_str_digits() to increase the limit"

/-- The integer with this sign and these decimal digits. -/
def readNumeral (negative : Bool) (digits : Text) : Except NumeralError Int :=
  if numeralLimit < digits.length then .error (.reading digits.length)
  else
    let n : Int := Text.natOfDigits digits
    .ok (if negative then -n else n)

/-- The numeral of an integer. -/
def writeNumeral (n : Int) : Except NumeralError Text :=
  if numeralLimit < (Text.ofNat n.natAbs).length then .error .writing else .ok (Text.ofInt n)

end LootTables
