import LootTables.Json.Display

/-!
# Settings

A configuration is read from a JSON object. Six settings hold whatever value is stored under
their names; what a value means is decided where it is used. The section `output` says what
happens to an output file. It is an object with a mode, which has to be one of two words when it
is a string, and the switch `atomic_write`; any other value is stored in place of the section and
is refused as soon as a part of the section is needed.

`Config.ofJson` goes through the fields in order and leaves names it does not know alone;
`Config.toJson` gives the object from which the same configuration is read again.
-/

namespace LootTables

/-! ### The output section -/

/-- What is to happen to an output file that exists already. -/
inductive OutputMode where
  | errorIfExists
  | force
deriving DecidableEq

/-- The modes in the order of their declaration. -/
def OutputMode.all : List OutputMode := [.errorIfExists, .force]

/-- The word for a mode. -/
def OutputMode.word : OutputMode → Text
  | .errorIfExists => "error"
  | .force => "force"

/-- The mode that a word stands for. -/
def OutputMode.ofWord? (word : Text) : Option OutputMode := OutputMode.all.find? fun m => m.word = word

/-- What is stored as the mode. Only a string has to be the word for one. -/
inductive ModeSetting where
  | known (mode : OutputMode)
  | other (v : Json)
deriving DecidableEq

/-- The settings of the output section. -/
structure OutputSettings where
  mode : ModeSetting := .known .force
  atomicWrite : Json := .bool true
deriving DecidableEq

/-- What is stored as the output section. -/
inductive OutputSection where
  | settings (s : OutputSettings)
  /-- A value with no settings in it. -/
  | value (v : Json)
  | missing
deriving DecidableEq

/-! ### The configuration -/

/-- The settings outside of the output section. -/
inductive Setting where
  | tableNameSuffix
  | itemNamespace
  | maxDepth
  | generationComment
  | packageName
  | className
deriving DecidableEq

/-- The settings in the order in which they are written. -/
def Setting.all : List Setting :=
  [.tableNameSuffix, .itemNamespace, .maxDepth, .generationComment, .packageName, .className]

/-- The name under which a setting is stored. -/
def Setting.name : Setting → Text
  | .tableNameSuffix => "table_name_suffix"
  | .itemNamespace => "item_namespace"
  | .maxDepth => "max_depth"
  | .generationComment => "add_generation_comment"
  | .packageName => "java_package"
  | .className => "java_class_name"

/-- The setting with a name. -/
def Setting.ofName? (name : Text) : Option Setting := Setting.all.find? fun s => s.name = name

/-- The name of the output section. -/
def outputKey : Text := "output"

/-- The names of the parts of the output section. -/
def modeKey : Text := "mode"

def atomicWriteKey : Text := "atomic_write"

/-- The name of writing a configuration out. A value stored under it takes its place. -/
def exportKey : Text := "to_dict"

/-- The name under which all settings are stored together. -/
def allSettingsKey : Text := "__dict__"

/-- A configuration. -/
structure Config where
  /-- What is put in place of `.json` to make a table's name. -/
  tableNameSuffix : Json := .string "_CHEST"
  /-- The namespace that is left out of item names. -/
  itemNamespace : Json := .string "minecraft"
  /-- How many components a source path may have, seen from the source directory. -/
  maxDepth : Json := .number (.integer 3)
  /-- Whether the file starts with a comment on how it was generated. -/
  generationComment : Json := .bool false
  /-- The package of the generated class; none when it is empty. -/
  packageName : Json := .string []
  /-- The class around the tables; none when it is empty. -/
  className : Json := .string []
  output : OutputSection := .settings {}
  /-- What is stored in place of writing the configuration out. -/
  exporter : Option Json := none
deriving DecidableEq

/-- What is stored under a setting. -/
def Config.get (c : Config) : Setting → Json
  | .tableNameSuffix => c.tableNameSuffix
  | .itemNamespace => c.itemNamespace
  | .maxDepth => c.maxDepth
  | .generationComment => c.generationComment
  | .packageName => c.packageName
  | .className => c.className

/-- The configuration with another value under a setting. -/
def Config.set (c : Config) (s : Setting) (v : Json) : Config :=
  match s with
  | .tableNameSuffix => { c with tableNameSuffix := v }
  | .itemNamespace => { c with itemNamespace := v }
  | .maxDepth => { c with maxDepth := v }
  | .generationComment => { c with generationComment := v }
  | .packageName => { c with packageName := v }
  | .className => { c with className := v }

/-! ### Refusals -/

/-- Why a configuration is not read, changed or written. -/
inductive ConfigError where
  /-- The document is no object. -/
  | notObject (found : JsonKind)
  /-- The value is no mode. -/
  | unknownMode (v : Json)
  /-- The output section is a value without this part. -/
  | noPart (found : JsonKind) (part : Text)
  /-- There is no output section. -/
  | noSection
  /-- The mode is a value that has no word. -/
  | modeHasNoWord (found : JsonKind)
  /-- Something else is stored in place of writing the configuration out. -/
  | exportReplaced (found : JsonKind)
  /-- All settings together have to be an object. -/
  | settingsNotObject (found : JsonKind)
  /-- What kind of thing a configuration is cannot be set. -/
  | classFixed (found : JsonKind)
  /-- Who refers to a configuration cannot be set. -/
  | referenceFixed
deriving DecidableEq

/-- The wording for a thing without a part. -/
def lacks (owner part : Text) : Text :=
  "'" ++ owner ++ "' object has no attribute '" ++ part ++ "'"

/-- The name of a configuration in messages. -/
def configTypeName : Text := "CodeGeneratorConfig"

/-- The wording of a refusal. -/
def ConfigError.message : ConfigError → Text
  | .notObject found => lacks found.word "items"
  | .unknownMode v => v.shown ++ " is not a valid OutputMode"
  | .noPart found part => lacks found.word part
  | .noSection => lacks configTypeName outputKey
  | .modeHasNoWord found => lacks found.word "value"
  | .exportReplaced found => "'" ++ found.word ++ "' object is not callable"
  | .settingsNotObject found => "__dict__ must be set to a dictionary, not a '" ++ found.word ++ "'"
  | .classFixed found => "__class__ must be set to a class, not '" ++ found.word ++ "' object"
  | .referenceFixed =>
    "attribute '__weakref__' of '" ++ configTypeName ++ "' objects is not writable"

/-! ### Storing values -/

/-- The mode that a value stands for. -/
def OutputMode.ofJson (v : Json) : Except ConfigError OutputMode :=
  match v with
  | .string word => (OutputMode.ofWord? word).elim (.error (.unknownMode v)) .ok
  | _ => .error (.unknownMode v)

/-- What is stored for the value of a mode. -/
def ModeSetting.ofJson (v : Json) : Except ConfigError ModeSetting :=
  match v with
  | .string _ => .known <$> OutputMode.ofJson v
  | _ => .ok (.other v)

/-- The settings in an object; the parts it leaves out have their defaults. -/
def OutputSettings.ofFields (fields : List (Text × Json)) : Except ConfigError OutputSettings := do
  let mode ← (fields.lookup modeKey).elim (.ok (.known .force)) ModeSetting.ofJson
  return ⟨mode, (fields.lookup atomicWriteKey).getD (.bool true)⟩

/-- The configuration that stores exactly these fields. -/
def Config.ofStored (fields : List (Text × Json)) : Config :=
  let stored (c : Config) (s : Setting) : Config := (fields.lookup s.name).elim c (c.set s)
  { Setting.all.foldl stored {} with
    output := (fields.lookup outputKey).elim .missing .value
    exporter := fields.lookup exportKey }

/-- Stores a value under a name as it is. Unknown names have no effect. -/
def Config.store (c : Config) (name : Text) (v : Json) : Except ConfigError Config :=
  match Setting.ofName? name with
  | some s => .ok (c.set s v)
  | none =>
    if name = outputKey then .ok { c with output := .value v }
    else if name = exportKey then .ok { c with exporter := some v }
    else if name = allSettingsKey then
      match v with
      | .object fields => .ok (.ofStored fields)
      | _ => .error (.settingsNotObject v.kind)
    else if name = "__class__" then .error (.classFixed v.kind)
    else if name = "__weakref__" then .error .referenceFixed
    else .ok c

/-- Changes a part of the output section, which has to have parts. -/
def Config.changeOutput (c : Config) (part : Text) (change : OutputSettings → OutputSettings) :
    Except ConfigError Config :=
  match c.output with
  | .settings s => .ok { c with output := .settings (change s) }
  | .value v => .error (.noPart v.kind part)
  | .missing => .error .noSection

/-- Sets the mode. -/
def Config.setMode (c : Config) (mode : OutputMode) : Except ConfigError Config :=
  c.changeOutput modeKey fun s => { s with mode := .known mode }

/-- Sets the switch for atomic writing. -/
def Config.setAtomicWrite (c : Config) (v : Json) : Except ConfigError Config :=
  c.changeOutput atomicWriteKey fun s => { s with atomicWrite := v }

/-! ### Reading and writing -/

/-- Reads one field. An object as output section is a section; any other value takes the place of
the section that is there. -/
def Config.readField (c : Config) (name : Text) (v : Json) : Except ConfigError Config :=
  if name = outputKey then
    match v, c.output with
    | .object fields, _ => do return { c with output := .settings (← OutputSettings.ofFields fields) }
    | _, .missing => .ok c
    | _, _ => c.store name v
  else c.store name v

/-- Reads a configuration, field by field over the defaults. -/
def Config.ofJson (v : Json) : Except ConfigError Config :=
  match v with
  | .object fields => fields.foldlM (fun c field => c.readField field.1 field.2) {}
  | _ => .error (.notObject v.kind)

/-- The output section as it is written. -/
def OutputSection.toJson : OutputSection → Except ConfigError Json
  | .settings ⟨.known mode, atomicWrite⟩ =>
    .ok (.object [(modeKey, .string mode.word), (atomicWriteKey, atomicWrite)])
  | .settings ⟨.other v, _⟩ => .error (.modeHasNoWord v.kind)
  | .value v => .error (.noPart v.kind modeKey)
  | .missing => .error .noSection

/-- Writes a configuration. -/
def Config.toJson (c : Config) : Except ConfigError Json :=
  match c.exporter with
  | some v => .error (.exportReplaced v.kind)
  | none => do
    let output ← c.output.toJson
    return .object (Setting.all.map (fun s => (s.name, c.get s)) ++ [(outputKey, output)])

/-- A written configuration reads back as the one it was written from. -/
def Config.readsBack (c : Config) (written : Json) : Bool :=
  match Config.ofJson written with
  | .ok d => d = c
  | .error _ => false

end LootTables
