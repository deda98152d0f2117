import LootTables.Assoc
import LootTables.Files.Path
import LootTables.Text.Quoted
import LootTables.Text.Utf8

/-!
# File trees

A file tree says what is at each location: a file with its content, a directory, or nothing. A
location is the list of names from the root. Paths are walked name by name (`FileTree.locate`), and
a walk stops where a name is looked up in what is no directory.

A tree is changed one location at a time, by `put` and `erase`, and `nodeAt_put` and `nodeAt_erase`
say that all other locations keep what they hold.
-/

namespace LootTables

/-- The names that lead from the root to a place. -/
abbrev Location := List Text

/-- What is at a location. -/
inductive Node where
  | file (content : Bytes)
  | directory
deriving DecidableEq

/-- What is where. No location is listed twice; the root is a directory without being listed. -/
structure FileTree where
  workingDirectory : Location
  entries : Assoc Location Node
  nodup : (Assoc.keys entries).Nodup

/-! ### Refusals -/

/-- Why a path is refused. -/
inductive FileFault where
  | notFound
  | busy
  | alreadyExists
  | notDirectory
  | isDirectory
  | nameTooLong
  /-- The path holds a NUL. -/
  | nul
deriving DecidableEq

/-- A refused path; for a renaming also the path to which it was to go. -/
structure FileError where
  fault : FileFault
  path : Path
  target : Option Path := none
deriving DecidableEq

/-- The number and the wording of a fault. -/
def FileFault.text : FileFault → Text
  | .notFound => "[Errno 2] No such file or directory"
  | .busy => "[Errno 16] Device or resource busy"
  | .alreadyExists => "[Errno 17] File exists"
  | .notDirectory => "[Errno 20] Not a directory"
  | .isDirectory => "[Errno 21] Is a directory"
  | .nameTooLong => "[Errno 36] File name too long"
  | .nul => "embedded null byte"

/-- The wording of a refusal. A path with a NUL is not shown. -/
def FileError.message (e : FileError) : Text :=
  if e.fault = .nul then e.fault.text
  else e.fault.text ++ ": " ++ e.path.text.quote
    ++ (match e.target with
      | none => ([] : Text)
      | some target => " -> " ++ target.text.quote)

namespace FileTree

/-- The tree in which only the root is there. -/
def empty (workingDirectory : Location) : FileTree := ⟨workingDirectory, [], List.nodup_nil⟩

/-! ### Looking -/

/-- What is at a location. -/
def nodeAt (t : FileTree) (l : Location) : Option Node :=
  if l = [] then some .directory else t.entries.lookup l

/-- How many bytes a name may have. -/
def nameLimit : Nat := 255

/-- How many bytes a whole path may have. -/
def pathLimit : Nat := 4095

/-- Looks a name up at a location, which has to be a directory. Whether there is anything of that
name is left open. -/
def step (t : FileTree) (here : Location) (name : Text) : Except FileFault Location :=
  match t.nodeAt here with
  | none => .error .notFound
  | some (.file _) => .error .notDirectory
  | some .directory =>
    if name = Path.aboveName then .ok here.dropLast
    else if nameLimit < Utf8.encodedLength name then .error .nameTooLong
    else .ok (here ++ [name])

/-- Where the walk along a path starts. -/
def start (t : FileTree) (p : Path) : Location :=
  match p.anchor with
  | .here => t.workingDirectory
  | _ => []

/-- The location to which a path leads. There need not be anything. -/
def locate (t : FileTree) (p : Path) : Except FileFault Location :=
  if (CodePoint.ofNat 0) ∈ p.text then .error .nul
  else if pathLimit < Utf8.encodedLength p.text then .error .nameTooLong
  else p.parts.foldlM t.step (t.start p)

/-- What a path leads to, together with its location. -/
def find (t : FileTree) (p : Path) : Except FileFault (Location × Node) := do
  let l ← t.locate p
  match t.nodeAt l with
  | some node => return (l, node)
  | none => .error .notFound

/-- What a path leads to, if anything. A path that cannot be walked leads to nothing, except that
one with too long a name is refused. -/
def find? (t : FileTree) (p : Path) : Except FileError (Option (Location × Node)) :=
  match t.find p with
  | .ok found => .ok (some found)
  | .error .nameTooLong => .error { fault := .nameTooLong, path := p }
  | .error _ => .ok none

/-- There is a file or a directory. -/
def fileOrDirectoryExists (t : FileTree) (p : Path) : Except FileError Bool :=
  return (← t.find? p).isSome

/-- There is a directory. -/
def directoryExists (t : FileTree) (p : Path) : Except FileError Bool := do
  match ← t.find? p with
  | some (_, .directory) => return true
  | _ => return false

/-- Opens a directory to see what is in it. -/
def listDirectory (t : FileTree) (p : Path) : Except FileError Unit :=
  match t.find p with
  | .ok (_, .directory) => .ok ()
  | .ok (_, .file _) => .error { fault := .notDirectory, path := p }
  | .error fault => .error { fault := fault, path := p }

/-- The content of a file. -/
def contentOf (t : FileTree) (p : Path) : Except FileError Bytes :=
  match t.find p with
  | .ok (_, .file content) => .ok content
  | .ok (_, .directory) => .error { fault := .isDirectory, path := p }
  | .error fault => .error { fault := fault, path := p }

/-- What lies below a location, with the names that lead there from it. -/
def below (t : FileTree) (l : Location) : List (List Text × Node) :=
  t.entries.filterMap fun entry =>
    match l.isPrefixOf? entry.1 with
    | none | some [] => none
    | some names => some (names, entry.2)

/-! ### Changing a place -/

/-- The tree with a node put at a location. -/
def put (t : FileTree) (l : Location) (node : Node) : FileTree :=
  { t with entries := Assoc.put l node t.entries, nodup := Assoc.nodup_put t.nodup }

/-- The tree with nothing at a location. -/
def erase (t : FileTree) (l : Location) : FileTree :=
  { t with entries := Assoc.erase l t.entries, nodup := Assoc.nodup_erase t.nodup }

/-- The tree with nothing at a location and below it. -/
def eraseAll (t : FileTree) (l : Location) : FileTree :=
  { t with
    entries := t.entries.filter fun entry => !l.isPrefixOf entry.1
    nodup := Assoc.nodup_filter t.nodup }

/-! ### Looking after a change -/

theorem nodeAt_put (t : FileTree) {l : Location} (node : Node) (h : l ≠ []) (k : Location) :
    (t.put l node).nodeAt k = if k = l then some node else t.nodeAt k := by
  simp only [nodeAt, put, Assoc.lookup_put]
  grind

theorem nodeAt_erase (t : FileTree) {l : Location} (h : l ≠ []) (k : Location) :
    (t.erase l).nodeAt k = if k = l then none else t.nodeAt k := by
  simp only [nodeAt, erase, Assoc.lookup_erase]
  grind

end FileTree

end LootTables
