import LootTables.Text.Lines

/-!
# Bracket balance

Before generated code is written, its parentheses and its braces are counted. A text is `balanced`
when both pairs occur equally often outside of lines that are comments; an `Imbalance` names the
first pair that is not, and its two counts.
-/

namespace LootTables

/-- A pair of brackets. -/
structure Brackets where
  opening : CodePoint
  closing : CodePoint
deriving DecidableEq

/-- The pairs in the order in which they are counted. -/
def Brackets.checked : List Brackets := [⟨'(', ')'⟩, ⟨'\x7b', '\x7d'⟩]

/-- A pair of brackets that do not occur equally often. -/
structure Imbalance where
  brackets : Brackets
  opened : Nat
  closed : Nat
deriving DecidableEq

/-- The wording of an imbalance. -/
def Imbalance.message (i : Imbalance) : Text :=
  "Generated Java code has unbalanced '" ++ [i.brackets.opening, i.brackets.closing] ++ "': "
    ++ Text.ofNat i.opened ++ " open, " ++ Text.ofNat i.closed ++ " close"

/-- What a comment line starts with. -/
def commentMark : Text := "//"

/-- The line is a comment, after blanks or without. -/
def isComment (line : Text) : Bool := commentMark.isPrefixOf line.dropBlanks

/-- The lines that are no comments. -/
def codeLines (s : Text) : List Text := s.lines.filter fun line => !isComment line

/-- How often a bracket occurs in some lines. -/
def occurrences (c : CodePoint) (lines : List Text) : Nat := lines.flatten.count c

/-- The imbalance of a pair in some lines, if they do not occur equally often. -/
def Brackets.imbalance? (b : Brackets) (lines : List Text) : Option Imbalance :=
  let opened := occurrences b.opening lines
  let closed := occurrences b.closing lines
  if opened = closed then none else some ⟨b, opened, closed⟩

/-- The first imbalance in a text. -/
def imbalance? (s : Text) : Option Imbalance :=
  Brackets.checked.findSome? fun b => b.imbalance? (codeLines s)

end LootTables
