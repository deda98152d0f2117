import LootTables.Files.Tree

/-!
# Changing files

Changes are *actions* (`FileAction`): each is a single step that either takes place or is refused
and leaves the tree as it was. Whatever is done to files is a list of actions, performed up to the
first that is refused (`perform`). Intermediate states are therefore states between two actions.

Making a directory together with those missing above it is such a list (`directoryActions`).
-/

namespace LootTables

/-! ### Actions -/

/-- A single change. -/
inductive FileAction where
  /-- Makes a directory in one that is there, unless it exists. -/
  | ensureDirectory (p : Path)
  /-- Makes a new, empty file. -/
  | create (p : Path)
  /-- Makes a file, or empties the one that is there. -/
  | truncate (p : Path)
  /-- Adds to the end of a file. -/
  | append (p : Path) (content : Bytes)
  /-- Moves a file to another path, in place of the file that is there. -/
  | rename (p target : Path)
  /-- Removes a file. -/
  | remove (p : Path)
  /-- Removes a file, or a directory with all that is below it. -/
  | removeAll (p : Path)

namespace FileTree

/-- The refusal of a path. -/
def refuse {α : Type} (p : Path) (fault : FileFault) : Except FileError α :=
  .error { fault := fault, path := p }

/-- What a walk along `p` has to say, as a refusal of `p`. -/
def walking {α : Type} (p : Path) (result : Except FileFault α) : Except FileError α :=
  result.mapError fun fault => { fault := fault, path := p }

/-- Makes a directory in one that is there. -/
def makeDirectory (t : FileTree) (p : Path) : Except FileError FileTree := do
  let l ← walking p (t.locate p)
  match t.nodeAt l with
  | some _ => refuse p .alreadyExists
  | none => return t.put l .directory

/-- Makes a directory in one that is there, unless it exists. -/
def ensureDirectory (t : FileTree) (p : Path) : Except FileError FileTree :=
  match t.makeDirectory p with
  | .ok t => .ok t
  | .error e => do
    if e.fault ≠ .notFound ∧ (← t.directoryExists p) then return t else .error e

/-- Makes a new, empty file. -/
def createFile (t : FileTree) (p : Path) : Except FileError FileTree := do
  let l ← walking p (t.locate p)
  match t.nodeAt l with
  | some _ => refuse p .alreadyExists
  | none => return t.put l (.file [])

/-- Makes a file, or empties the one that is there. -/
def truncateFile (t : FileTree) (p : Path) : Except FileError FileTree := do
  let l ← walking p (t.locate p)
  match t.nodeAt l with
  | some .directory => refuse p .isDirectory
  | _ => return t.put l (.file [])

/-- Adds to the end of a file. -/
def appendFile (t : FileTree) (p : Path) (content : Bytes) : Except FileError FileTree := do
  let (l, node) ← walking p (t.find p)
  match node with
  | .directory => refuse p .isDirectory
  | .file before => return t.put l (.file (before ++ content))

/-- Moves a file to another path, in place of the file that is there. -/
def renameFile (t : FileTree) (p target : Path) : Except FileError FileTree :=
  let move : Except FileFault FileTree := do
    let new ← t.locate target
    if target.EndsInName then
      let (old, node) ← t.find p
      match node, t.nodeAt new with
      | .directory, _ | _, some .directory => .error .isDirectory
      | .file content, _ => return (t.erase old).put new (.file content)
    else .error .busy
  move.mapError fun fault => ⟨fault, p, some target⟩

/-- Removes a file. -/
def removeFile (t : FileTree) (p : Path) : Except FileError FileTree := do
  let (l, node) ← walking p (t.find p)
  match node with
  | .directory => refuse p .isDirectory
  | .file _ => return t.erase l

/-- Removes a file, or a directory with all that is below it. -/
def removeAll (t : FileTree) (p : Path) : Except FileError FileTree := do
  let (l, _) ← walking p (t.find p)
  return t.eraseAll l

end FileTree

/-- The tree after an action, or its refusal. -/
def FileAction.apply (t : FileTree) : FileAction → Except FileError FileTree
  | .ensureDirectory p => t.ensureDirectory p
  | .create p => t.createFile p
  | .truncate p => t.truncateFile p
  | .append p content => t.appendFile p content
  | .rename p target => t.renameFile p target
  | .remove p => t.removeFile p
  | .removeAll p => t.removeAll p

/-- A computation on a file tree. A failure keeps what has been changed before it. -/
abbrev FileM (ε α : Type) := EStateM ε FileTree α

/-- Performs a single action. -/
def FileAction.perform (a : FileAction) : FileM FileError Unit := fun t =>
  match a.apply t with
  | .ok t => .ok () t
  | .error e => .error e t

/-- Performs actions in order, up to the first one that is refused. -/
def perform (actions : List FileAction) : FileM FileError Unit := actions.forM FileAction.perform

/-! ### Directories above directories -/

/-- The directories that have to be ensured for `p`, topmost first: those above it are needed as
long as making `p` itself fails for want of them. -/
def FileTree.neededDirectories (t : FileTree) (anchor : Anchor) : List Text → List Path
  | [] => [⟨anchor, []⟩]
  | name :: above =>
    let p : Path := ⟨anchor, (name :: above).reverse⟩
    match t.makeDirectory p with
    | .error ⟨.notFound, _, _⟩ => t.neededDirectories anchor above ++ [p]
    | _ => [p]

/-- The actions that make a directory and all that are missing above it. -/
def FileTree.directoryActions (t : FileTree) (p : Path) : List FileAction :=
  (t.neededDirectories p.anchor p.parts.reverse).map .ensureDirectory

/-- Makes a directory and all that are missing above it. -/
def makeDirectories (p : Path) : FileM FileError Unit := do
  perform ((← get).directoryActions p)

/-! ### Fresh names -/

/-- How many digits a tag has. -/
def tagWidth : Nat := 8

/-- The hidden name of a temporary file that is going to replace `name`. -/
def temporaryName (name : Text) (tag : Nat) : Text :=
  let digits := Text.ofNat tag
  "." ++ name ++ "." ++ Text.zeros (tagWidth - digits.length) ++ digits ++ ".tmp"

/-- The path of a temporary file next to `p`: the first one, counting from `tag`, at which there
is nothing. After `tries` taken ones the next is given without looking. -/
def FileTree.temporaryPath (t : FileTree) (p : Path) : (tries tag : Nat) → Path
  | 0, tag => p.sibling (temporaryName p.name tag)
  | tries + 1, tag =>
    let temporary := p.sibling (temporaryName p.name tag)
    match t.find temporary with
    | .ok _ => t.temporaryPath p tries (tag + 1)
    | .error _ => temporary

end LootTables
