import LootTables.Proofs.Command.Options
import LootTables.Proofs.Files.Resolved
import LootTables.Proofs.Text.Cut

/-!
# Invocations

What a call of the command comes down to: the paths of its arguments are resolved
(`Invocation.ofWords_eq_ok_iff`), its settings are put together, and a generator writes the output
(`command_eq_ok_iff`, `command_eq_error_write_iff`). The switch for the comment plays a part in none of
this except the settings, where it is the last word on the comment, and the command line that is shown.

The command line shows two paths and the values of options, and after them the names of the switches that
are on (`Invocation.commandLine_eq_ok_iff`).
-/

namespace LootTables

section

variable {t t' : FileTree} {i : Invocation} {p : Path} {words : List Text} {a : Arguments} {config : Config}
  {limits : Limits} {text line : Text}

namespace Invocation

/-! ### Resolving -/

theorem resolve_eq_ok_iff {parameter : PathParameter} {word : Text} :
    resolve t parameter word = .ok p ↔ CodePoint.ofNat 0 ∉ word ∧
      p = (Path.ofText word).absolute t.workingDirectory ∧
      parameter.complaint? ((t.find p).toOption.map Prod.snd) = none := by
  unfold resolve
  split
  · next hnul => exact iff_of_false nofun fun h => h.1 hnul
  · next hnul =>
    rw [and_iff_right hnul]
    dsimp only
    split
    · next hcomplaint =>
      refine iff_of_false nofun ?_
      rintro ⟨rfl, hnone⟩
      cases hcomplaint.symm.trans hnone
    · next hnone =>
      constructor
      · intro h
        cases h
        exact ⟨rfl, hnone⟩
      · rintro ⟨rfl, -⟩
        rfl

theorem ofWords_eq_ok_iff : Invocation.ofWords t words = .ok i ↔ Arguments.ofWords words = .ok i.arguments ∧
    i.arguments.config.mapM (resolve t .config) = .ok i.config ∧
    resolve t .source (i.arguments.positional.head?.getD defaultSource) = .ok i.source ∧
    resolve t .output (i.arguments.positional.tail.head?.getD defaultOutput) = .ok i.output ∧
    i.arguments.positional.drop 2 = [] := by
  unfold Invocation.ofWords
  simp only [bind_eq_ok_iff, mapError_eq_ok_iff]
  constructor
  · rintro ⟨a, ha, config, hconfig, source, hsource, output, houtput, h⟩
    split at h
    · next hextra =>
      cases h
      exact ⟨ha, hconfig, hsource, houtput, hextra⟩
    · cases h
  · rintro ⟨ha, hconfig, hsource, houtput, hextra⟩
    refine ⟨_, ha, _, hconfig, _, hsource, _, houtput, ?_⟩
    rw [hextra]
    rfl

theorem isResolved_of_resolve {parameter : PathParameter} {word : Text}
    (h : resolve t parameter word = .ok p) : p.IsResolved := by
  obtain ⟨-, rfl, -⟩ := resolve_eq_ok_iff.1 h
  exact Path.isResolved_absolute _ _

theorem of_ofWords (h : Invocation.ofWords t words = .ok i) :
    Arguments.ofWords words = .ok i.arguments ∧ i.output.IsResolved := by
  obtain ⟨harguments, -, -, houtput, -⟩ := ofWords_eq_ok_iff.1 h
  exact ⟨harguments, isResolved_of_resolve houtput⟩

/-- Resolves the paths of arguments. -/
def ofArguments (t : FileTree) (a : Arguments) : Except CommandError Invocation := do
  let config ← a.config.mapM (resolve t .config)
  let source ← resolve t .source (a.positional.head?.getD defaultSource)
  let output ← resolve t .output (a.positional.tail.head?.getD defaultOutput)
  match a.positional.drop 2 with
  | [] => return ⟨a, config, source, output⟩
  | extra => .error (.usage (.extraArguments extra))

theorem ofWords_of_arguments (h : Arguments.ofWords words = .ok a) :
    Invocation.ofWords t words = ofArguments t a := by
  unfold Invocation.ofWords
  rw [h]
  rfl

/-- The invocation with the switch for the comment on or off. -/
def withComment (i : Invocation) (on : Bool) : Invocation :=
  { i with arguments := { i.arguments with generationComment := on } }

/-- The switch for the comment has no part in resolving. -/
theorem ofArguments_withComment (t : FileTree) (a : Arguments) (on : Bool) :
    ofArguments t { a with generationComment := on } = (·.withComment on) <$> ofArguments t a := by
  unfold ofArguments
  dsimp only
  cases a.config.mapM (resolve t .config) with
  | error e => rfl
  | ok config =>
    cases resolve t .source (a.positional.head?.getD defaultSource) with
    | error e => rfl
    | ok source =>
      cases resolve t .output (a.positional.tail.head?.getD defaultOutput) with
      | error e => rfl
      | ok output =>
        cases a.positional.drop 2 with
        | nil => rfl
        | cons word words => rfl

/-- With the switch on, the settings are those without it, and the comment. -/
theorem settings_withComment (i : Invocation) (limits : Limits) (t : FileTree) :
    (i.withComment true).settings limits t =
      (fun c : Config => { c with generationComment := .bool true }) <$>
        (i.withComment false).settings limits t := by
  unfold settings withComment
  dsimp only
  cases i.config.elim (.ok {}) (loadConfig t limits.settings) with
  | error e => rfl
  | ok stored =>
    rw [ok_bind, ok_bind]
    cases i.arguments.noOverwrite with
    | false => rfl
    | true =>
      unfold Config.setMode Config.changeOutput
      cases h : stored.output <;> rfl

/-! ### The command line that is shown -/

/-- A value that is shown, after the name of its option if it has one. -/
abbrev Shown := List Text × Text

/-- The value of an option, unless it is not given or empty. -/
def optionValue (o : ValueOption) : Option Text → List Shown
  | none | some [] => []
  | some value => [([(CommandOption.value o).longName], value)]

/-- The values that are shown. -/
def values (i : Invocation) : List Shown :=
  ([], i.source.text) :: ([], i.output.text) :: (optionValue .config (i.config.map Path.text) ++
    (optionValue .className i.arguments.className ++ optionValue .packageName i.arguments.packageName))

/-- The words for a value. -/
def valueWords (t : FileTree) (value : Shown) : Except FileError (List Text) := do
  return value.1 ++ [← displayed t value.2]

/-- The words for the switches that are on. -/
def switchWords (a : Arguments) : List Text :=
  displayedSwitch .generationComment a.generationComment ++ displayedSwitch .noOverwrite a.noOverwrite
    ++ displayedSwitch .verbose a.verbose

/-- Words in a line, each after a blank. -/
def afterBlanks (words : List Text) : Text := words.flatMap (" " ++ ·)

theorem displayedOption_eq_ok_iff {o : ValueOption} {value : Option Text} {shown : List Text} :
    displayedOption t o value = .ok shown ↔
      ∃ pieces, (optionValue o value).mapM (valueWords t) = .ok pieces ∧ shown = pieces.flatten := by
  unfold displayedOption optionValue
  match value with
  | none => simp [pure, Except.pure, eq_comm]
  | some [] => simp [pure, Except.pure, eq_comm]
  | some (c :: s) =>
    simp only [List.mapM_cons, List.mapM_nil, valueWords]
    cases displayed t (c :: s) with
    | error e => simp [bind, Except.bind]
    | ok word => simp [bind, Except.bind, pure, Except.pure, eq_comm]

theorem mapM_values_eq_ok_iff {pieces : List (List Text)} :
    i.values.mapM (valueWords t) = .ok pieces ↔ ∃ source output config className packageName,
      displayed t i.source.text = .ok source ∧ displayed t i.output.text = .ok output ∧
      (optionValue .config (i.config.map Path.text)).mapM (valueWords t) = .ok config ∧
      (optionValue .className i.arguments.className).mapM (valueWords t) = .ok className ∧
      (optionValue .packageName i.arguments.packageName).mapM (valueWords t) = .ok packageName ∧
      pieces = [source] :: [output] :: (config ++ (className ++ packageName)) := by
  unfold values
  simp only [List.mapM_cons, List.mapM_append, bind_eq_ok_iff, pure_eq_ok_iff, valueWords]
  constructor
  · rintro ⟨_, ⟨source, hsource, rfl⟩, _, ⟨_, ⟨output, houtput, rfl⟩, _, ⟨config, hconfig, _,
      ⟨className, hclass, packageName, hpackage, rfl⟩, rfl⟩, rfl⟩, rfl⟩
    exact ⟨source, output, config, className, packageName, hsource, houtput, hconfig, hclass, hpackage, rfl⟩
  · rintro ⟨source, output, config, className, packageName, hsource, houtput, hconfig, hclass, hpackage, rfl⟩
    exact ⟨_, ⟨source, hsource, rfl⟩, _, ⟨_, ⟨output, houtput, rfl⟩, _, ⟨config, hconfig, _,
      ⟨className, hclass, packageName, hpackage, rfl⟩, rfl⟩, rfl⟩, rfl⟩

theorem join_standard (source output : Text) (config className packageName : List (List Text))
    (a : Arguments) :
    Text.join " " ([Generator.programName, source, output] ++ config.flatten ++ className.flatten
      ++ packageName.flatten ++ displayedSwitch .generationComment a.generationComment
      ++ displayedSwitch .noOverwrite a.noOverwrite ++ displayedSwitch .verbose a.verbose) =
    Generator.programName
      ++ afterBlanks ([source] :: [output] :: (config ++ (className ++ packageName))).flatten
      ++ afterBlanks (switchWords a) := by
  simp only [List.cons_append, List.nil_append, Text.join_cons, afterBlanks, switchWords,
    List.flatten_cons, List.flatten_append, List.flatMap_cons, List.flatMap_append, List.append_assoc]

theorem commandLine_eq_ok_iff :
    i.commandLine t = .ok line ↔ ∃ pieces, i.values.mapM (valueWords t) = .ok pieces ∧ line =
      Generator.programName ++ afterBlanks pieces.flatten ++ afterBlanks (switchWords i.arguments) := by
  unfold commandLine
  simp only [bind_eq_ok_iff, pure_eq_ok_iff, displayedOption_eq_ok_iff, mapM_values_eq_ok_iff]
  constructor
  · rintro ⟨_, ⟨config, hconfig, rfl⟩, _, ⟨className, hclass, rfl⟩, _, ⟨packageName, hpackage, rfl⟩, source,
      hsource, output, houtput, rfl⟩
    exact ⟨_, ⟨source, output, config, className, packageName, hsource, houtput, hconfig, hclass, hpackage,
      rfl⟩, join_standard source output config className packageName i.arguments⟩
  · rintro ⟨_, ⟨source, output, config, className, packageName, hsource, houtput, hconfig, hclass, hpackage,
      rfl⟩, rfl⟩
    exact ⟨_, ⟨config, hconfig, rfl⟩, _, ⟨className, hclass, rfl⟩, _, ⟨packageName, hpackage, rfl⟩, source,
      hsource, output, houtput, join_standard source output config className packageName i.arguments⟩

end Invocation

/-! ### Running -/

theorem resolve_ne_write {parameter : PathParameter} {word : Text} {e : WriteError} :
    resolve t parameter word ≠ .error (.failure (.write e)) := by
  unfold resolve
  split
  · exact nofun
  · dsimp only
    split <;> exact nofun

theorem Invocation.ofWords_ne_write {e : WriteError} :
    Invocation.ofWords t words ≠ .error (.failure (.write e)) := by
  cases harguments : Arguments.ofWords words with
  | error e' =>
    unfold Invocation.ofWords
    rw [harguments]
    exact nofun
  | ok a =>
    rw [ofWords_of_arguments harguments]
    intro h
    rcases bind_eq_error_iff.1 h with h | ⟨config, -, h⟩
    · cases hconfig : a.config with
      | none =>
        rw [hconfig] at h
        cases h
      | some word =>
        rw [hconfig] at h
        rcases bind_eq_error_iff.1 h with h | ⟨p, -, h⟩
        · exact resolve_ne_write h
        · cases h
    · rcases bind_eq_error_iff.1 h with h | ⟨source, -, h⟩
      · exact resolve_ne_write h
      · rcases bind_eq_error_iff.1 h with h | ⟨output, -, h⟩
        · exact resolve_ne_write h
        · split at h <;> cases h

theorem Invocation.settings_ne_write {e : WriteError} : i.settings limits t ≠ .error (.write e) := by
  intro h
  rcases bind_eq_error_iff.1 h with h | ⟨stored, -, h⟩
  · cases hconfig : i.config with
    | none =>
      rw [hconfig] at h
      cases h
    | some p =>
      rw [hconfig] at h
      rcases bind_eq_error_iff.1 h with h | ⟨bytes, -, h⟩
      · obtain ⟨_, -, h⟩ := mapError_eq_error_iff.1 h
        cases h
      · rcases bind_eq_error_iff.1 h with h | ⟨text, -, h⟩
        · obtain ⟨_, -, h⟩ := mapError_eq_error_iff.1 h
          cases h
        · rcases bind_eq_error_iff.1 h with h | ⟨v, -, h⟩
          · obtain ⟨_, -, h⟩ := mapError_eq_error_iff.1 h
            cases h
          · obtain ⟨_, -, h⟩ := mapError_eq_error_iff.1 h
            cases h
  · dsimp only at h
    split at h
    · obtain ⟨_, -, h⟩ := mapError_eq_error_iff.1 h
      cases h
    · cases h

/-- What a call comes to, whatever room there is for it. -/
theorem command_apply : command words limits t = match Invocation.ofWords t words with
    | .error e => .error e t
    | .ok i =>
      match i.settings limits t with
      | .error e => .error (.failure e) t
      | .ok config =>
        match (Generator.ofConfig i.source config limits).write i.output (i.commandLine t) t with
        | .ok text t' => .ok text t'
        | .error e t' => .error (.failure e) t' := by
  change (match Invocation.ofWords t words with
    | .error e => throw e
    | .ok i => (i.run limits).adaptExcept .failure : FileM CommandError Text) t = _
  cases Invocation.ofWords t words with
  | error e => rfl
  | ok i =>
    have hrun : i.run limits t = (match i.settings limits t with
        | .error e => throw e
        | .ok config =>
          (Generator.ofConfig i.source config limits).write i.output (i.commandLine t) : FileM Failure Text) t := rfl
    change EStateM.adaptExcept CommandError.failure (i.run limits) t = _
    unfold EStateM.adaptExcept
    rw [hrun]
    dsimp only
    cases i.settings limits t with
    | error e => rfl
    | ok config =>
      dsimp only
      cases (Generator.ofConfig i.source config limits).write i.output (i.commandLine t) t <;> rfl

/-- A call succeeds when its words resolve, its settings are there, and the output is written. -/
theorem command_eq_ok_iff :
    command words limits t = .ok text t' ↔ ∃ i config, Invocation.ofWords t words = .ok i ∧
      i.settings limits t = .ok config ∧
      (Generator.ofConfig i.source config limits).write i.output (i.commandLine t) t = .ok text t' := by
  rw [command_apply]
  constructor
  · intro h
    split at h
    · cases h
    · next i hi =>
      split at h
      · cases h
      · next config hconfig =>
        split at h
        · next hwrite =>
          cases h
          exact ⟨i, config, hi, hconfig, hwrite⟩
        · cases h
  · rintro ⟨i, config, hi, hconfig, hwrite⟩
    simp only [hi, hconfig, hwrite]

/-- What comes of writing the output comes of the call. -/
theorem command_eq_error_write_iff {e : WriteError} :
    command words limits t = .error (.failure (.write e)) t' ↔ ∃ i config, Invocation.ofWords t words = .ok i ∧
      i.settings limits t = .ok config ∧
      (Generator.ofConfig i.source config limits).write i.output (i.commandLine t) t = .error (.write e) t' := by
  rw [command_apply]
  constructor
  · intro h
    split at h
    · next hwords =>
      cases h
      exact absurd hwords Invocation.ofWords_ne_write
    · next i hi =>
      split at h
      · next hsettings =>
        cases h
        exact absurd hsettings Invocation.settings_ne_write
      · next config hconfig =>
        split at h
        · cases h
        · next hwrite =>
          cases h
          exact ⟨i, config, hi, hconfig, hwrite⟩
  · rintro ⟨i, config, hi, hconfig, hwrite⟩
    simp only [hi, hconfig, hwrite]

end

end LootTables
