import LootTables.Source

/-!
# Generating the output

A generator turns a source directory into one text: a header, the declarations of all tables, and a
footer. All documents are read before anything is generated, and the text is complete before
anything is written; the first failure in this order is the failure of the run.

The item namespace is taken from the configuration once, when the generator is made. All other
settings are looked up in a run.
-/

namespace LootTables

/-- How a text is written under the settings of an output section. -/
def OutputSettings.write (s : OutputSettings) (output : Path) (content : Text) :
    FileM WriteError Unit :=
  if s.mode = .known .errorIfExists then writeNew output content true
  else if s.atomicWrite.isYes then writeAtomic output content true
  else writePlain output content

/-- What is to be converted, how, and within which limits. -/
structure Generator where
  source : Path
  config : Config
  itemNamespace : Text
  limits : Limits := {}

namespace Generator

/-- The generator for a source directory. -/
def ofConfig (source : Path) (config : Config) (limits : Limits := {}) : Generator :=
  ⟨source, config, config.itemNamespace.text, limits⟩

/-- The sources of a generator. -/
def sources (g : Generator) (t : FileTree) : Except Failure (List Path) :=
  LootTables.sources t g.source g.config.maxDepth g.limits.directories

/-- The tables of all sources, which one parser decodes. -/
def tables (g : Generator) (t : FileTree) : Except Failure (List LootTable) := do
  let paths ← g.sources t
  loadTables t g.limits.documents g.config.tableNameSuffix.text {} paths

theorem tables_eq (g : Generator) (t : FileTree) : g.tables t = g.sources t >>= fun paths =>
    paths.mapM (loadTable t g.limits.documents g.config.tableNameSuffix.text) := by
  simp only [tables, loadTables_eq]

/-! ### The frame around the tables -/

/-- The name under which the program runs. -/
def programName : Text := "loot_table_to_code"

/-- The comment on how a file was generated. -/
def commentLine (commandLine : Text) : Text :=
  commentMark ++ " Generated by " ++ programName ++ " v1.0.0 : " ++ commandLine

/-- What comes before the tables; an empty comment, package or class name has no lines. -/
def header (comment : Text) (packageName className : Json) : Text :=
  let commentLines : Text := if comment.isEmpty then [] else comment ++ "\n"
  let packageLines : Text :=
    if packageName.isYes then "package " ++ packageName.text ++ ";\n\n" else []
  let classLines : Text :=
    if className.isYes then "public class " ++ className.text ++ " \x7b\n\n" else []
  commentLines ++ packageLines ++ classLines

/-- What comes after the tables. -/
def footer (className : Json) : Text := if className.isYes then "\n\x7d\n" else []

/-- The comment, empty when there is to be none. -/
def comment (g : Generator) (commandLine : Except FileError Text) : Except Failure Text :=
  if g.config.generationComment.isYes then commentLine <$> commandLine.mapError .file else .ok []

/-- The whole text. `commandLine` is what the comment shows; it is needed only for the comment. -/
def generate (g : Generator) (t : FileTree) (commandLine : Except FileError Text) :
    Except Failure Text := do
  let tables ← g.tables t
  let body ← (renderTables g.itemNamespace tables).mapError .render
  let comment ← g.comment commandLine
  return header comment g.config.packageName g.config.className ++ body ++ "\n"
    ++ footer g.config.className

/-- Generates the text and writes it. -/
def write (g : Generator) (output : Path) (commandLine : Except FileError Text) :
    FileM Failure Text := do
  match g.generate (← get) commandLine with
  | .error e => throw e
  | .ok content =>
    match g.config.output with
    | .settings s => (s.write output content).adaptExcept .write
    | .value v => throw (.config (.noPart v.kind modeKey))
    | .missing => throw (.config .noSection)
    return content

end Generator

end LootTables
