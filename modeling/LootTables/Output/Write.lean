import LootTables.Files.Action
import LootTables.Output.Balance

/-!
# Writing the output

A file is written in one of three ways. The atomic way checks the text, fills a temporary file next
to the output and moves it into place, so that at no time the output is half written; when
anything goes wrong the temporary file is discarded. The careful way does the same, but only where
nothing exists yet. The plain way empties the output and writes to it, unchecked.
-/

namespace LootTables

/-- Why a file is not written. -/
inductive WriteError where
  | unbalanced (i : Imbalance)
  | outputExists (p : Path)
  | file (e : FileError)
  | encoding (e : Utf8.EncodeError)
deriving DecidableEq

/-- The wording of a refusal. -/
def WriteError.message : WriteError → Text
  | .unbalanced i => i.message
  | .outputExists p => "Output file already exists: " ++ p.text
  | .file e => e.message
  | .encoding e => e.message

/-- Performs actions on files on the way of writing. -/
def performForWriting (actions : List FileAction) : FileM WriteError Unit :=
  (perform actions).adaptExcept .file

/-- Makes the directory of an output and all that are missing above it. -/
def makeParent (p : Path) : FileM WriteError Unit := (makeDirectories p.parent).adaptExcept .file

/-- Refuses a text that is not balanced. -/
def checkBalance (content : Text) : FileM WriteError Unit :=
  match imbalance? content with
  | none => pure ()
  | some i => throw (.unbalanced i)

/-- The actions that put a content in place of `target` by way of a file that is there already. The
content may come in any number of chunks. -/
def replaceActions (temporary target : Path) (chunks : List Bytes) : List FileAction :=
  chunks.map (.append temporary) ++ [.rename temporary target]

/-- Fills the temporary file and moves it into place. -/
def replaceWith (temporary target : Path) (content : Text) : FileM WriteError Unit :=
  match Utf8.encode content with
  | .ok bytes => performForWriting (replaceActions temporary target [bytes])
  | .error e => throw (.encoding e)

/-- Removes a temporary file, if it is still there. -/
def discard (temporary : Path) : FileM WriteError Unit :=
  tryCatch (performForWriting [.remove temporary]) fun _ => pure ()

/-- Writes a file atomically. -/
def writeAtomic (p : Path) (content : Text) (checked : Bool) : FileM WriteError Unit := do
  if checked then checkBalance content
  makeParent p
  let t ← get
  let temporary := t.temporaryPath p t.entries.length 0
  performForWriting [.create temporary]
  tryCatch (replaceWith temporary p content) fun e => do
    discard temporary
    throw e

/-- Writes a file atomically where nothing exists yet. -/
def writeNew (p : Path) (content : Text) (checked : Bool) : FileM WriteError Unit := do
  match (← get).fileOrDirectoryExists p with
  | .error e => throw (.file e)
  | .ok true => throw (.outputExists p)
  | .ok false => writeAtomic p content checked

/-- Writes a file directly. It is emptied before anything else is found out. -/
def writePlain (p : Path) (content : Text) : FileM WriteError Unit := do
  makeParent p
  performForWriting [.truncate p]
  match Utf8.encode content with
  | .ok bytes => performForWriting [.append p bytes]
  | .error e => throw (.encoding e)

end LootTables
