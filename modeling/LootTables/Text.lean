/-!
# Text as a list of code points

Documents may spell half of a surrogate pair with an escape, so the texts of this library are
lists of *code points*, the surrogates included, and not lists of `Char`. Everything that a
`Char` can be embeds (`CodePoint.ofChar`), and a string literal is read as a text wherever one is
expected.

The functions here are the ones every later stage shares: cutting a fixed beginning or end off,
joining with a separator, the order by code points, and the digits of a number.
-/

namespace LootTables

/-- A Unicode code point. Unlike a `Char` it may be a surrogate. -/
structure CodePoint where
  val : Nat
  isLt : val < 0x110000
deriving DecidableEq

namespace CodePoint

@[ext] theorem ext {a b : CodePoint} (h : a.val = b.val) : a = b := by
  cases a; cases b; cases h; rfl

/-- The code point of a number; numbers past the last code point give NUL, as for `Char.ofNat`. -/
def ofNat (n : Nat) : CodePoint :=
  if h : n < 0x110000 then ⟨n, h⟩ else ⟨0, by decide⟩

theorem val_ofNat {n : Nat} (h : n < 0x110000) : (ofNat n).val = n := by
  simp [ofNat, h]

/-- Every character is a code point. -/
@[coe] def ofChar (c : Char) : CodePoint :=
  ⟨c.toNat, by
    have valid := c.valid
    have val_eq : c.val.toNat = c.toNat := rfl
    simp only [UInt32.isValidChar, Nat.isValidChar] at valid
    omega⟩

instance : Coe Char CodePoint := ⟨ofChar⟩

/-- One half of a surrogate pair. No encoded text contains one on its own. -/
def IsSurrogate (c : CodePoint) : Prop := 0xD800 ≤ c.val ∧ c.val < 0xE000

instance (c : CodePoint) : Decidable c.IsSurrogate :=
  inferInstanceAs (Decidable (_ ∧ _))

/-- A decimal digit of ASCII. -/
def isDigit (c : CodePoint) : Bool := decide (0x30 ≤ c.val ∧ c.val ≤ 0x39)

/-- The value of a decimal digit. -/
def digitValue (c : CodePoint) : Nat := c.val - 0x30

end CodePoint

/-- A text: its code points in order. -/
abbrev Text := List CodePoint

namespace Text

/-- The text of a string literal. -/
@[coe] def ofString (s : String) : Text := s.toList.map CodePoint.ofChar

instance : Coe String Text := ⟨ofString⟩

/-- The texts in order, with `separator` between neighbours. -/
def join (separator : Text) (texts : List Text) : Text := separator.intercalate texts

/-- What follows `start` in `s`, when `s` starts with it. -/
def dropStart? (start s : Text) : Option Text := start.isPrefixOf? s

/-- What comes before `ending` in `s`, when `s` ends with it. -/
def dropEnd? (ending s : Text) : Option Text := ending.isSuffixOf? s

/-- `s` up to the first `c` and what follows that `c`, when there is one. -/
def cut? (c : CodePoint) (s : Text) : Option (Text × Text) :=
  match s.span (· ≠ c) with
  | (_, []) => none
  | (before, _ :: after) => some (before, after)

/-- The pieces of a text between the occurrences of `c`; there is always at least one. -/
def split (c : CodePoint) : Text → List Text
  | [] => [[]]
  | d :: s =>
    if d = c then [] :: split c s
    else
      match split c s with
      | [] => [[d]]
      | piece :: pieces => (d :: piece) :: pieces

-- Lists have their basic order, also where a more general one is known.
attribute [local instance (high)] List.instLE

/-- The order of texts: code point by code point, a beginning before what it begins. -/
def le (a b : Text) : Bool := decide (a.map CodePoint.val ≤ b.map CodePoint.val)

/-! ### Numerals -/

/-- The decimal numeral of a natural number. -/
def ofNat (n : Nat) : Text := (Nat.toDigits 10 n).map CodePoint.ofChar

/-- The decimal numeral of an integer, with a minus sign in front of a negative one. -/
def ofInt : Int → Text
  | .ofNat n => ofNat n
  | .negSucc n => '-' :: ofNat (n + 1)

/-- A run of `n` zeros. -/
def zeros (n : Nat) : Text := List.replicate n '0'

/-- The hexadecimal numeral of `n` in lower case, filled with zeros to at least `width` digits. -/
def hex (width n : Nat) : Text :=
  let digits : Text := (Nat.toDigits 16 n).map CodePoint.ofChar
  zeros (width - digits.length) ++ digits

/-- The number that a run of decimal digits denotes. -/
def natOfDigits (digits : Text) : Nat :=
  digits.foldl (fun n c => 10 * n + c.digitValue) 0

end Text

end LootTables
