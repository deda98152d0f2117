import LootTables.Text.Printable

/-!
# Quoted text

Messages show a text that somebody else wrote in quotes, so that its ends are visible and every
code point that does not print is spelled out. The mark is `'`, unless the text holds `'` and not
`"`. Backslashes and the mark get a backslash, `\n`, `\r` and `\t` their letters, and all other
hidden code points an escape of two, four or eight hexadecimal digits.
-/

namespace LootTables.Text

/-- The mark that quotes a text. -/
def quoteMark (s : Text) : CodePoint :=
  if (('\x27' : Char) : CodePoint) ∈ s ∧ (('\x22' : Char) : CodePoint) ∉ s then '\x22' else '\x27'

/-- One code point as it is written between two marks. -/
def escapePoint (mark c : CodePoint) : Text :=
  if c = mark ∨ c = '\\' then ['\\', c]
  else if c = '\n' then "\\n"
  else if c = '\r' then "\\r"
  else if c = '\t' then "\\t"
  else if isPrintable c then [c]
  else if c.val < 0x100 then "\\x" ++ hex 2 c.val
  else if c.val < 0x10000 then "\\u" ++ hex 4 c.val
  else "\\U" ++ hex 8 c.val

/-- The text in quotes. -/
def quote (s : Text) : Text :=
  let mark := quoteMark s
  mark :: s.flatMap (escapePoint mark) ++ [mark]

end LootTables.Text
