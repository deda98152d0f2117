import LootTables.Command.Options
import LootTables.Generator

/-!
# The command

The command reads its words, resolves the paths among them, loads the settings, puts the options
over the settings and writes the output. It ends with no failure, with a usage error, which tells
the user how to call it, or with the failure of the run.

The generation comment shows the command line in a standard form: the program's name, the two
paths, then the options that were given, in the order of their declaration. A value that is the
path of something is shown by its last name.
-/

namespace LootTables

/-! ### Usage errors -/

/-- What can be wrong with a path that was given. -/
inductive PathComplaint where
  | missing
  | isFile
  | isDirectory
deriving DecidableEq

/-- The wording of a complaint. -/
def PathComplaint.text : PathComplaint → Text
  | .missing => "does not exist."
  | .isFile => "is a file."
  | .isDirectory => "is a directory."

/-- The parameters that are paths. -/
inductive PathParameter where
  | config
  | source
  | output
deriving DecidableEq

/-- The name of a parameter in messages. -/
def PathParameter.name : PathParameter → Text
  | .config => "'--config' / '-c'"
  | .source => "'\x5bPATH\x5d'"
  | .output => "'\x5bOUTPUT\x5d'"

/-- What a parameter has to be the path of. -/
def PathParameter.noun : PathParameter → Text
  | .config => "Path"
  | .source => "Directory"
  | .output => "File"

/-- What is wrong with what the path of a parameter leads to, if anything. -/
def PathParameter.complaint? : PathParameter → Option Node → Option PathComplaint
  | .output, none => none
  | _, none => some .missing
  | .source, some (.file _) => some .isFile
  | .output, some .directory => some .isDirectory
  | _, some _ => none

/-- Why the command was not called as it should be. -/
inductive UsageError where
  | option (e : OptionError)
  | path (parameter : PathParameter) (word : Text) (complaint : PathComplaint)
  | extraArguments (words : List Text)
deriving DecidableEq

/-- The wording of a usage error. -/
def UsageError.message : UsageError → Text
  | .option e => e.message
  | .path parameter word complaint =>
    "Invalid value for " ++ parameter.name ++ ": " ++ parameter.noun ++ " " ++ word.quote ++ " "
      ++ complaint.text
  | .extraArguments words =>
    "Got unexpected extra argument" ++ (if words.length = 1 then [] else ("s" : Text)) ++ " ("
      ++ Text.join " " words ++ ")"

/-- How to call the command. -/
def usageLines : Text :=
  "Usage: loot-table-to-code \x5bOPTIONS\x5d \x5bPATH\x5d \x5bOUTPUT\x5d\n"
    ++ "Try 'loot-table-to-code --help' for help.\n\n"

/-- The usage is shown, except with an option whose value is amiss. -/
def UsageError.showsUsage : UsageError → Bool
  | .option (.needsValue _) | .option (.takesNoValue _) => false
  | _ => true

/-- Why the command fails. -/
inductive CommandError where
  | usage (e : UsageError)
  | failure (e : Failure)
deriving DecidableEq

/-- The number with which the command ends. -/
def CommandError.exitCode : CommandError → Nat
  | .usage _ => 2
  | .failure _ => 1

/-- The code point lies between two others. -/
def isBetween (low high : Nat) (c : CodePoint) : Bool := low ≤ c.val && c.val ≤ high

/-- What follows a control sequence, of which the escape and the bracket have been read: parameters
from `0` to `?`, intermediates from the space to `/`, and one final character from `@` to `~`. -/
def afterControl? (s : Text) : Option Text :=
  match (s.dropWhile (isBetween 0x30 0x3F)).dropWhile (isBetween 0x20 0x2F) with
  | [] => none
  | c :: rest => if isBetween 0x40 0x7E c then some rest else none

/-- How many code points of a control sequence follow an escape in front of `s`; zero when none
does. -/
def controlLength (s : Text) : Nat :=
  match s with
  | [] => 0
  | c :: t => if c = '\x5b' then (afterControl? t).elim 0 fun rest => s.length - rest.length else 0

/-- Leaves out `skipped` code points and then all control sequences. -/
def plainFrom (skipped : Nat) : Text → Text
  | [] => []
  | c :: s =>
    match skipped with
    | k + 1 => plainFrom k s
    | 0 =>
      let length := if c.val = 0x1B then controlLength s else 0
      if length = 0 then c :: plainFrom 0 s else plainFrom length s

/-- A code point on the console. A surrogate cannot be encoded and is spelled out. -/
def consolePoint (c : CodePoint) : Text := if c.IsSurrogate then "\\u" ++ Text.hex 4 c.val else [c]

/-- A text on the console: without the control sequences of a terminal, and with surrogates spelled
out. -/
def consoleText (s : Text) : Text := (plainFrom 0 s).flatMap consolePoint

/-- What the command says about a failure. What is not reported is not said. -/
def CommandError.text : CommandError → Text
  | .usage e =>
    let usage : Text := if e.showsUsage then usageLines else []
    consoleText (usage ++ "Error: " ++ e.message ++ "\n")
  | .failure e => if e.isReported then consoleText ("Error: " ++ e.message ++ "\n") else []

/-! ### Paths -/

/-- Resolves a path that was given and checks what it leads to. -/
def resolve (t : FileTree) (parameter : PathParameter) (word : Text) : Except CommandError Path :=
  if (CodePoint.ofNat 0) ∈ word then .error (.failure (.file { fault := .nul, path := .ofText word }))
  else
    let p := (Path.ofText word).absolute t.workingDirectory
    match parameter.complaint? ((t.find p).toOption.map Prod.snd) with
    | some complaint => .error (.usage (.path parameter word complaint))
    | none => .ok p

/-- The source directory when none is given. -/
def defaultSource : Text := "src/main/resources/loot/v1_16/"

/-- The output when none is given. -/
def defaultOutput : Text := "loot_tables_output.txt"

/-- A command line whose paths are resolved. -/
structure Invocation where
  arguments : Arguments
  config : Option Path
  source : Path
  output : Path

/-- Reads a command line and resolves its paths. -/
def Invocation.ofWords (t : FileTree) (words : List Text) : Except CommandError Invocation := do
  let arguments ← (Arguments.ofWords words).mapError fun e => .usage (.option e)
  let config ← arguments.config.mapM (resolve t .config)
  let source ← resolve t .source (arguments.positional.head?.getD defaultSource)
  let output ← resolve t .output (arguments.positional.tail.head?.getD defaultOutput)
  match arguments.positional.drop 2 with
  | [] => return ⟨arguments, config, source, output⟩
  | extra => .error (.usage (.extraArguments extra))

/-! ### The command line in the comment -/

/-- A value as the comment shows it. -/
def displayed (t : FileTree) (value : Text) : Except FileError Text := do
  let p := Path.ofText value
  return if ← t.fileOrDirectoryExists p then p.name else value

/-- An option with its value, when it has one that is not empty. -/
def displayedOption (t : FileTree) (o : ValueOption) (value : Option Text) :
    Except FileError (List Text) :=
  match value with
  | none | some [] => .ok []
  | some value => do return [(CommandOption.value o).longName, ← displayed t value]

/-- A switch, when it is on. -/
def displayedSwitch (s : Switch) (on : Bool) : List Text :=
  if on then [(CommandOption.switch s).longName] else []

namespace Invocation

/-- The command line in its standard form. -/
def commandLine (i : Invocation) (t : FileTree) : Except FileError Text := do
  let a := i.arguments
  let config ← displayedOption t .config (i.config.map Path.text)
  let className ← displayedOption t .className a.className
  let packageName ← displayedOption t .packageName a.packageName
  let source ← displayed t i.source.text
  let output ← displayed t i.output.text
  return Text.join " " ([Generator.programName, source, output] ++ config ++ className ++ packageName
    ++ displayedSwitch .generationComment a.generationComment
    ++ displayedSwitch .noOverwrite a.noOverwrite ++ displayedSwitch .verbose a.verbose)

/-- The settings in a file, in which at most `limit` containers may be open at once. -/
def loadConfig (t : FileTree) (limit : Nat) (p : Path) : Except Failure Config := do
  let bytes ← (t.contentOf p).mapError .file
  let text ← (Utf8.decode bytes).mapError .badUtf8
  let v ← (Json.read text.unifyNewlines limit).mapError .badJson
  (Config.ofJson v).mapError .config

/-- The settings of the run: those of the file, or the defaults, and the options over them. -/
def settings (i : Invocation) (limits : Limits) (t : FileTree) : Except Failure Config := do
  let stored ← i.config.elim (.ok {}) (loadConfig t limits.settings)
  let a := i.arguments
  let c : Config :=
    { stored with
      className := a.className.elim stored.className .string
      packageName := a.packageName.elim stored.packageName .string
      generationComment := if a.generationComment then .bool true else stored.generationComment }
  if a.noOverwrite then (c.setMode .errorIfExists).mapError .config else return c

/-- Runs the command and gives what it wrote. -/
def run (i : Invocation) (limits : Limits) : FileM Failure Text := do
  let t ← get
  match i.settings limits t with
  | .error e => throw e
  | .ok config => (Generator.ofConfig i.source config limits).write i.output (i.commandLine t)

end Invocation

/-- What a run has room for when the command is called from a shell. Reading the command line takes a
few calls more than calling the run directly. -/
def commandLimits : Limits where
  documents := 985
  settings := 989
  directories := 983

/-- The command, called with some words. -/
def command (words : List Text) (limits : Limits := commandLimits) : FileM CommandError Text := do
  match Invocation.ofWords (← get) words with
  | .error e => throw e
  | .ok i => (i.run limits).adaptExcept .failure

end LootTables
