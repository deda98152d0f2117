import LootTables.Text

/-!
# Paths

A path is an anchor and the names below it. Reading a path drops empty names and names that are a
single dot, so that repeated slashes, a slash at the end and `.` make no difference; `..` is kept
as a name, because what it leads to is known only in a file tree. `Path.text` writes a path in this
simplest form, and reading what was written gives the path back.
-/

namespace LootTables

/-- What a path starts from. -/
inductive Anchor where
  /-- The working directory. -/
  | here
  /-- The root. -/
  | root
  /-- The root, written with exactly two slashes. -/
  | doubleRoot
deriving DecidableEq

/-- An anchor as it is written. -/
def Anchor.text : Anchor → Text
  | .here => []
  | .root => "/"
  | .doubleRoot => "//"

/-- A path in its simplest form. -/
structure Path where
  anchor : Anchor
  parts : List Text
deriving DecidableEq

namespace Path

/-- The mark between names. -/
def slash : CodePoint := '/'

/-- The name of a directory in itself. -/
def selfName : Text := "."

/-- The name of the directory above. -/
def aboveName : Text := ".."

/-- The anchor of a written path, told by the slashes in front. -/
def anchorOf (s : Text) : Anchor :=
  match (s.takeWhile (· = slash)).length with
  | 0 => .here
  | 2 => .doubleRoot
  | _ => .root

/-- The names of a written path. -/
def partsOf (s : Text) : List Text := (Text.split slash s).filter fun part => part ≠ [] ∧ part ≠ selfName

/-- Reads a path. -/
def ofText (s : Text) : Path := ⟨anchorOf s, partsOf s⟩

/-- Writes a path. -/
def text (p : Path) : Text :=
  match p.anchor.text ++ Text.join "/" p.parts with
  | [] => selfName
  | s => s

/-- The last name; empty when there is none. -/
def name (p : Path) : Text := p.parts.getLast?.getD []

/-- The path without its last name. -/
def parent (p : Path) : Path := { p with parts := p.parts.dropLast }

/-- The path that goes on with more names. -/
def append (p : Path) (names : List Text) : Path := { p with parts := p.parts ++ names }

/-- The path of the same directory with another last name. -/
def sibling (p : Path) (name : Text) : Path := p.parent.append [name]

/-- The path ends with a name of its own, and not where it started or with a step up. -/
def EndsInName (p : Path) : Prop := p.parts.getLast? ≠ none ∧ p.parts.getLast? ≠ some aboveName

instance (p : Path) : Decidable p.EndsInName := inferInstanceAs (Decidable (_ ∧ _))

/-- Simplifies a list of names from the working directory or from the root: each step up takes
back the name before it, or nothing. -/
def simplify (names : List Text) : List Text :=
  names.foldl (fun done name => if name = aboveName then done.dropLast else done ++ [name]) []

/-- The path from the root, when `here` is the working directory. Steps up are taken in writing,
whether or not what they step out of exists. -/
def absolute (here : List Text) (p : Path) : Path :=
  match p.anchor with
  | .here => ⟨.root, simplify (here ++ p.parts)⟩
  | _ => ⟨.root, simplify p.parts⟩

end Path

end LootTables
