import LootTables.Text.Quoted

/-!
# Options and arguments

A command line consists of words. A word that begins with a dash names an option, by its long name
or by a cluster of letters; what is left are the arguments, and options may stand between them. An
option that takes a value takes the rest of its word, if there is one, or else the next word,
whatever that is. After the word `--` all words are arguments.

Words are read from left to right (`readWords`). An option that still waits for its value is
carried along as the *pending* one, so that no word is looked at twice.
-/

namespace LootTables

/-- The options that take a value. -/
inductive ValueOption where
  | config
  | className
  | packageName
deriving DecidableEq

/-- The options that are given or not. -/
inductive Switch where
  | generationComment
  | noOverwrite
  | verbose
deriving DecidableEq

/-- An option. -/
inductive CommandOption where
  | value (o : ValueOption)
  | switch (s : Switch)
deriving DecidableEq

namespace CommandOption

/-- The options in the order of their declaration. -/
def all : List CommandOption :=
  [.value .config, .value .className, .value .packageName, .switch .generationComment,
    .switch .noOverwrite, .switch .verbose]

/-- The long name of an option. -/
def longName : CommandOption → Text
  | .value .config => "--config"
  | .value .className => "--class-name"
  | .value .packageName => "--package"
  | .switch .generationComment => "--generation-comment"
  | .switch .noOverwrite => "--no-overwrite"
  | .switch .verbose => "--verbose"

/-- The letter of an option. -/
def letter? : CommandOption → Option CodePoint
  | .value .config => some 'c'
  | .value .className => some 'n'
  | .value .packageName => some 'p'
  | .switch .verbose => some 'v'
  | .switch _ => none

/-- The option with a long name. -/
def ofLongName? (name : Text) : Option CommandOption := all.find? fun o => o.longName = name

/-- The option with a letter. -/
def ofLetter? (c : CodePoint) : Option CommandOption := all.find? fun o => o.letter? = some c

end CommandOption

/-- What a command line says. Of an option given more than once the last value counts. -/
structure Arguments where
  config : Option Text := none
  className : Option Text := none
  packageName : Option Text := none
  generationComment : Bool := false
  noOverwrite : Bool := false
  verbose : Bool := false
  /-- The words that are no options. -/
  positional : List Text := []
deriving DecidableEq

namespace Arguments

/-- The arguments with an option set to a value. -/
def set (a : Arguments) (o : ValueOption) (value : Text) : Arguments :=
  match o with
  | .config => { a with config := some value }
  | .className => { a with className := some value }
  | .packageName => { a with packageName := some value }

/-- The arguments with a switch turned on. -/
def turnOn (a : Arguments) (s : Switch) : Arguments :=
  match s with
  | .generationComment => { a with generationComment := true }
  | .noOverwrite => { a with noOverwrite := true }
  | .verbose => { a with verbose := true }

/-- The arguments with further words that are no options. -/
def add (a : Arguments) (words : List Text) : Arguments :=
  { a with positional := a.positional ++ words }

end Arguments

/-- Why words are no command line. -/
inductive OptionError where
  | unknown (name : Text)
  | needsValue (name : Text)
  | takesNoValue (name : Text)
deriving DecidableEq

/-- The wording of a refusal. -/
def OptionError.message : OptionError → Text
  | .unknown name => "No such option " ++ name.quote ++ "."
  | .needsValue name => "Option " ++ name.quote ++ " requires an argument."
  | .takesNoValue name => "Option " ++ name.quote ++ " does not take a value."

/-- What has been read of a command line. -/
structure ReadSoFar where
  arguments : Arguments
  /-- The option that waits for its value, and the name it was given by. -/
  pending : Option (ValueOption × Text) := none

/-- The sign in front of an option. -/
def dash : CodePoint := '-'

/-- The word that ends the options. -/
def endOfOptions : Text := "--"

/-- Reads a cluster of letters. After the letter of an option that takes a value, what is left of
the cluster is the value. -/
def readCluster (a : Arguments) : Text → Except OptionError ReadSoFar
  | [] => .ok { arguments := a }
  | c :: rest =>
    match CommandOption.ofLetter? c with
    | none => .error (.unknown [dash, c])
    | some (.switch s) => readCluster (a.turnOn s) rest
    | some (.value o) =>
      if rest.isEmpty then .ok { arguments := a, pending := some (o, [dash, c]) }
      else .ok { arguments := a.set o rest }

/-- Reads an option by its long name, with the value after the equals sign, if there is one. -/
def readLong (a : Arguments) (name : Text) (value : Option Text) (o : CommandOption) :
    Except OptionError ReadSoFar :=
  match o, value with
  | .value o, some value => .ok { arguments := a.set o value }
  | .value o, none => .ok { arguments := a, pending := some (o, name) }
  | .switch _, some _ => .error (.takesNoValue name)
  | .switch s, none => .ok { arguments := a.turnOn s }

/-- Reads a word that names options. A word with a single dash is a cluster. -/
def readOption (a : Arguments) (word : Text) : Except OptionError ReadSoFar :=
  let (name, value) :=
    match Text.cut? '=' word with
    | some (name, value) => (name, some value)
    | none => (word, none)
  match CommandOption.ofLongName? name with
  | some o => readLong a name value o
  | none =>
    if endOfOptions.isPrefixOf word then .error (.unknown name) else readCluster a word.tail

/-- The word names options: it is more than a single dash. -/
def isOptionWord (word : Text) : Bool := word.head? = some dash && 2 ≤ word.length

/-- Reads the words that follow what has been read so far. -/
def readWords : ReadSoFar → List Text → Except OptionError Arguments
  | ⟨a, none⟩, [] => .ok a
  | ⟨_, some (_, name)⟩, [] => .error (.needsValue name)
  | ⟨a, some (o, _)⟩, word :: words => readWords ⟨a.set o word, none⟩ words
  | ⟨a, none⟩, word :: words =>
    if word = endOfOptions then .ok (a.add words)
    else if isOptionWord word then do readWords (← readOption a word) words
    else readWords ⟨a.add [word], none⟩ words

/-- Reads a command line. -/
def Arguments.ofWords (words : List Text) : Except OptionError Arguments :=
  readWords { arguments := {} } words

end LootTables
