import LootTables.Config
import LootTables.Json.Reader
import LootTables.Output.Write
import LootTables.Table.Decode
import LootTables.Table.Render

/-!
# Failures of a run

A run fails for one of these causes. The ones that a user can mend in the sources or by another
choice of the output are *reported*: the command prints their message and ends. All others leave
the command as they are.
-/

namespace LootTables

/-- Why a search for sources cannot tell how deep something lies. -/
inductive DepthFault where
  /-- The greatest depth is a value that does not compare with a number. -/
  | notComparable (found : JsonKind)
  /-- Directories are nested more deeply than the search can go. -/
  | tooDeep
deriving DecidableEq

/-- The wording of a fault. -/
def DepthFault.text : DepthFault → Text
  | .notComparable found =>
    "'<=' not supported between instances of 'int' and '" ++ found.word ++ "'"
  | .tooDeep => "maximum recursion depth exceeded"

/-- Why a run fails. -/
inductive Failure where
  /-- There is no source directory. -/
  | noSource (p : Path)
  /-- A source cannot be read. -/
  | unreadable (p : Path) (e : FileError)
  | notUtf8 (p : Path) (e : Utf8.DecodeError)
  | notJson (p : Path) (e : Json.ReadError)
  | undecodable (e : DecodeError)
  | write (e : WriteError)
  /-- A file outside of the sources, or a path that no file can have. -/
  | file (e : FileError)
  /-- A settings file that is no UTF-8. -/
  | badUtf8 (e : Utf8.DecodeError)
  /-- A document that exceeds a limit, or a settings file that is no JSON. -/
  | badJson (e : Json.ReadError)
  | config (e : ConfigError)
  | depth (fault : DepthFault)
  | render (e : RenderError)
deriving DecidableEq

/-- The wording of a failure. -/
def Failure.message : Failure → Text
  | .noSource p => "Source directory not found: " ++ p.text
  | .unreadable p e => "Could not read " ++ p.text ++ ": " ++ e.message
  | .notUtf8 p e => p.text ++ " is not valid UTF-8: " ++ e.message
  | .notJson p e => "Invalid JSON in " ++ p.text ++ ": " ++ e.message
  | .undecodable e => e.message
  | .write e => e.message
  | .file e => e.message
  | .badUtf8 e => e.message
  | .badJson e => e.message
  | .config e => e.message
  | .depth fault => fault.text
  | .render e => e.message

/-- The failure is reported to the user. -/
def Failure.isReported : Failure → Bool
  | .noSource _ | .unreadable _ _ | .notUtf8 _ _ | .notJson _ _ | .undecodable _ => true
  | .write (.unbalanced _) | .write (.outputExists _) => true
  | _ => false

end LootTables
