import LootTables.Command.Run

/-!
# The command line

Reads what the command may look at into a file tree, runs the command on the tree, and then brings
what changed in the tree to the disk. Of files only those are read that may be a source or the
settings; a file is written next to its place and moved there when it is complete.
-/

namespace LootTables

/-- A text as a string; half of a surrogate pair has no character and becomes NUL. -/
def Text.string (s : Text) : String := String.ofList (s.map fun c => Char.ofNat c.val)

/-- The path of a location on the disk. -/
def diskPath (l : Location) : String := "/" ++ (Text.join "/" l).string

/-- What the words of a command line may be the paths of. -/
def mentionedPaths (words : List Text) : List Text :=
  match Arguments.ofWords words with
  | .error _ => []
  | .ok a =>
    a.config.toList ++ a.className.toList ++ a.packageName.toList
      ++ [a.positional.head?.getD defaultSource, a.positional.tail.head?.getD defaultOutput]

/-- Reads what is at a location, and all below it. A file that is `wanted` or has the name of a
document is read with its content, any other as an empty one. -/
partial def readTree (l : Location) (wanted : Bool) (t : FileTree) : IO FileTree := do
  let path := (← IO.currentDir) / diskPath l
  if !(← path.pathExists) then return t
  if ← path.isDir then
    let mut t := if l = [] then t else t.put l .directory
    for entry in ← path.readDir do
      t ← readTree (l ++ [Text.ofString entry.fileName]) false t
    return t
  let content ← if wanted || isDocumentName l then IO.FS.readBinFile path else pure .empty
  return t.put l (.file content.toList)

/-- Reads the directories above a location, as far as they are there. -/
def readAbove (l : Location) (t : FileTree) : IO FileTree := do
  let mut t := t
  for n in List.range l.length do
    let above := l.take n
    let path := (← IO.currentDir) / diskPath above
    if n ≠ 0 ∧ (← path.pathExists) then
      t := t.put above (if ← path.isDir then .directory else .file [])
  return t

/-- Brings a changed place to the disk. -/
def bring (l : Location) : Node → IO Unit
  | .directory => IO.FS.createDirAll (diskPath l)
  | .file content => do
    let temporary := diskPath l ++ ".part"
    IO.FS.writeBinFile temporary ⟨content.toArray⟩
    IO.FS.rename temporary (diskPath l)

/-- Brings to the disk what is in `after` and not in `before`. -/
def bringChanges (before after : FileTree) : IO Unit := do
  for (l, node) in after.entries do
    if before.nodeAt l ≠ some node then bring l node

/-- Runs the command and gives its exit code. -/
def runCommand (words : List Text) : IO UInt32 := do
  let here := (Path.ofText (Text.ofString (← IO.currentDir).toString)).parts
  let mut t := FileTree.empty here
  for word in mentionedPaths words do
    let l := ((Path.ofText word).absolute here).parts
    t ← readAbove l t
    t ← readTree l true t
  match command words commandLimits t with
  | .ok _ after =>
    bringChanges t after
    return 0
  | .error e after =>
    bringChanges t after
    let text :=
      match e with
      | .failure f => if f.isReported then e.text else f.message ++ ("\n" : Text)
      | .usage _ => e.text
    IO.eprint text.string
    return e.exitCode.toUInt32

end LootTables

/-- Converts a directory of loot tables. -/
def main (args : List String) : IO UInt32 := LootTables.runCommand (args.map LootTables.Text.ofString)
