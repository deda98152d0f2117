import LootTables.Text

/-!
# Lines and blanks

Three notions of where a line ends are in use. Files are read with every line ending turned into
a line feed (`unifyNewlines`). A generated text is cut into lines at every character that Unicode
calls a line boundary (`lines`), which is the stricter view a reader of the file may take. Blanks
in front of a line are the Unicode white space and the four ASCII separators (`dropBlanks`).
-/

namespace LootTables

/-- Closed ranges of code points, ascending. -/
abbrev CodePointRanges := List (Nat × Nat)

/-- The code point lies in one of the ranges. -/
def CodePoint.isIn (c : CodePoint) (ranges : CodePointRanges) : Bool :=
  ranges.any fun r => r.1 ≤ c.val && c.val ≤ r.2

namespace Text

/-- Where a line may end: line feed, vertical tab, form feed, carriage return, the file, group and
record separators, next line, line separator and paragraph separator. -/
def lineBreakRanges : CodePointRanges :=
  [(0x0A, 0x0D), (0x1C, 0x1E), (0x85, 0x85), (0x2028, 0x2029)]

/-- The white space of Unicode together with the separators `1C..1F`. -/
def blankRanges : CodePointRanges :=
  [(0x09, 0x0D), (0x1C, 0x20), (0x85, 0x85), (0xA0, 0xA0), (0x1680, 0x1680), (0x2000, 0x200A),
    (0x2028, 0x2029), (0x202F, 0x202F), (0x205F, 0x205F), (0x3000, 0x3000)]

def isLineBreak (c : CodePoint) : Bool := c.isIn lineBreakRanges

def isBlank (c : CodePoint) : Bool := c.isIn blankRanges

/-- The text without the blanks in front of it. -/
def dropBlanks (s : Text) : Text := s.dropWhile isBlank

/-- Reads on after a carriage return when `afterReturn` holds: a line feed there belongs to the
line ending that has already been written. -/
def unifyNewlinesFrom (afterReturn : Bool) : Text → Text
  | [] => []
  | c :: s =>
    if c = '\r' then '\n' :: unifyNewlinesFrom true s
    else if afterReturn ∧ c = '\n' then unifyNewlinesFrom false s
    else c :: unifyNewlinesFrom false s

/-- The text with `\r\n` and every other `\r` turned into `\n`. -/
def unifyNewlines (s : Text) : Text := unifyNewlinesFrom false s

/-- The pieces between line breaks; a break at the very end begins no further line. -/
def cutAtBreaks : Text → List Text
  | [] => []
  | c :: s =>
    if isLineBreak c then [] :: cutAtBreaks s
    else
      match cutAtBreaks s with
      | [] => [[c]]
      | line :: lines => (c :: line) :: lines

/-- The lines of a text, where `\r\n` ends one line and not two. -/
def lines (s : Text) : List Text := cutAtBreaks (unifyNewlines s)

end Text

end LootTables
