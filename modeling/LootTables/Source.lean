import LootTables.Failure
import LootTables.Table.Name
import LootTables.Table.Parser
import LootTables.Text.Lines

/-!
# Source documents

The sources are the regular files below a directory whose names end in `.json`, down to a greatest
depth (`sources`). Their order is that of their paths as texts, seen from the directory, so it does
not depend on the order in which the tree lists them.

The search goes through the directories in the order of the tree and looks at each place on the way
(`FileTree.visits`). The first visit that fails ends it: a path that is too long for a directory to
be listed, or for anything with the name of a document to be looked at, and a directory that lies
too deep (`FileTree.examine`).

`loadDocument` reads one: its bytes have to be UTF-8, its line endings are unified, and the text has
to be JSON. What makes a document unreadable is a failure of its path.
-/

namespace LootTables

/-- The names that lead to a file end in one of a document. -/
def isDocumentName (names : List Text) : Bool := (".json" : Text).isSuffixOf (names.getLast?.getD [])

/-! ### The search -/

/-- What a search does on its way. The names lead there from where the search starts. -/
inductive Visit where
  /-- It lists a directory. -/
  | list (names : List Text)
  /-- It looks at something with the name of a document. -/
  | look (names : List Text)
  /-- It has no room to go on. -/
  | giveUp

/-- The names of what lies directly in a directory, as the tree lists it. -/
def FileTree.children (t : FileTree) (l : Location) : List (Text × Node) :=
  (t.below l).filterMap fun
    | ([name], node) => some (name, node)
    | _ => none

/-- The directories that a search opens, in its order: the one to which the names lead from where the
search starts, and then those in it, one after another. No more than `room` of them lie inside each
other below it. -/
def FileTree.opened (t : FileTree) (l : Location) : (room : Nat) → (names : List Text) → List (List Text)
  | 0, names => [names]
  | room + 1, names =>
    names :: ((t.children (l ++ names)).filter fun (_, node) => node = .directory).flatMap
      fun (name, _) => t.opened l room (names ++ [name])

/-- The visits in a directory. Those in it are gone into only afterwards, and if there is room. -/
def FileTree.visitsIn (t : FileTree) (l : Location) (room : Nat) (names : List Text) : List Visit :=
  let documents := (t.children (l ++ names)).filter fun (name, _) => isDocumentName [name]
  .list names :: documents.map (fun (name, _) => .look (names ++ [name])) ++
    if names.length < room then [] else [.giveUp]

/-- The visits of a search that starts at a location. -/
def FileTree.visits (t : FileTree) (l : Location) (room : Nat) : List Visit :=
  (t.opened l room []).flatMap (t.visitsIn l room)

/-- How deep a source may lie. -/
def depthCheck (maxDepth : Json) : Except Failure (Nat → Bool) :=
  match maxDepth with
  | .bool b => .ok fun depth => depth ≤ b.toNat
  | .number (.integer n) => .ok fun depth => depth ≤ n
  | .number (.double x) => .ok fun depth => x.isAtLeast depth
  | v => .error (.depth (.notComparable v.kind))

/-- What becomes of a visit: the names of a source, nothing, or the end of the search. The greatest
depth is looked at only for a file. -/
def FileTree.examine (t : FileTree) (directory : Path) (maxDepth : Json) :
    Visit → Except Failure (Option (List Text))
  | .list names => do
    (t.listDirectory (directory.append names)).mapError .file
    return none
  | .look names => do
    match ← (t.find? (directory.append names)).mapError .file with
    | some (_, .file _) =>
      let allowed ← depthCheck maxDepth
      return if allowed names.length then some names else none
    | _ => return none
  | .giveUp => .error (.depth .tooDeep)

/-- The text of names that lead to a source. -/
def relativeText (names : List Text) : Text := Text.join "/" names

/-- The order of sources. -/
def sourceOrder (a b : List Text) : Bool := Text.le (relativeText a) (relativeText b)

/-- The sources below a directory, in order, where so many directories may be open at once. -/
def sources (t : FileTree) (directory : Path) (maxDepth : Json) (room : Nat) :
    Except Failure (List Path) := do
  match ← (t.find? directory).mapError .file with
  | some (l, .directory) =>
    let found ← (t.visits l room).mapM (t.examine directory maxDepth)
    return (found.reduceOption.mergeSort sourceOrder).map directory.append
  | _ => .error (.noSource directory)

/-! ### Loading -/

/-- The document in a file, in which at most `limit` containers may be open at once. -/
def loadDocument (t : FileTree) (p : Path) (limit : Nat := ({} : Limits).documents) :
    Except Failure Json := do
  let bytes ← (t.contentOf p).mapError fun e => if e.fault = .nul then .file e else .unreadable p e
  let text ← (Utf8.decode bytes).mapError (.notUtf8 p)
  (Json.read text.unifyNewlines limit).mapError fun e =>
    match e with
    | .malformed _ _ => .notJson p e
    | e => .badJson e

/-- The table in a file, named after it. -/
def loadTable (t : FileTree) (limit : Nat) (suffix : Text) (p : Path) : Except Failure LootTable := do
  let document ← loadDocument t p limit
  (document.toTable (tableName p.name suffix)).mapError .undecodable

/-- The tables in files, which one parser decodes in their order. -/
def loadTables (t : FileTree) (limit : Nat) (suffix : Text) (parser : Parser) :
    List Path → Except Failure (List LootTable)
  | [] => return []
  | p :: paths => do
    let document ← loadDocument t p limit
    let (parser, table) := parser.parse document (tableName p.name suffix)
    let table ← table.mapError .undecodable
    let tables ← loadTables t limit suffix parser paths
    return table :: tables

/-- Whatever parser it is, each table is the one of its file alone. -/
theorem loadTables_eq (t : FileTree) (limit : Nat) (suffix : Text) (parser : Parser)
    (paths : List Path) :
    loadTables t limit suffix parser paths = paths.mapM (loadTable t limit suffix) := by
  induction paths generalizing parser with
  | nil => rfl
  | cons p paths ih => simp only [loadTables, loadTable, List.mapM_cons, Parser.parse_eq, ih, bind_assoc]

end LootTables
