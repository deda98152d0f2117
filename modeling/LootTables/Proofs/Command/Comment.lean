import LootTables.Proofs.Command.Invocation
import LootTables.Proofs.Output.Comment

/-!
# The comment and the check

A run with the comment and the same run without it should be refused alike by the check before writing: the
comment is no code. Both runs come to the check with the same text, except for the comment above it
(`Invocation.checks_commented_iff`, `Invocation.checks_plain_iff`). So they are refused alike if the
command line that is shown spills no lines into the code, and `rejected_alike_iff` says when else. Two
things set them apart: the lines that a shown value with line breaks spills, and a shown value with too long
a name, at which the run with the comment fails before it comes to the check.
-/

namespace LootTables

section

variable {s : OutputSettings} {t t' : FileTree} {p : Path} {content : Text}

/-! ### Coming to the check -/

/-- A text is checked before it is written, unless something is found in the way first. -/
def OutputSettings.Checks (s : OutputSettings) (t : FileTree) (p : Path) : Prop :=
  if s.mode = .known .errorIfExists then t.fileOrDirectoryExists p = .ok false else s.atomicWrite.isYes

/-- A write is refused for the balance exactly if it comes to the check and the text is not balanced. -/
theorem OutputSettings.write_unbalanced_iff :
    (∃ i t', s.write p content t = .error (.unbalanced i) t') ↔
      s.Checks t p ∧ imbalance? content ≠ none := by
  cases hbalance : imbalance? content with
  | none =>
    refine iff_of_false ?_ fun h => h.2 rfl
    rintro ⟨i, t', h⟩
    exact (FileM.ends_iff.1 (s.write_ends_balanced hbalance i)).2 _ t' h trivial
  | some i =>
    rw [and_iff_left (Option.some_ne_none i)]
    unfold OutputSettings.write OutputSettings.Checks
    split
    · rw [writeNew_apply]
      cases t.fileOrDirectoryExists p with
      | error e => exact iff_of_false (by rintro ⟨_, _, h⟩; cases h) nofun
      | ok there =>
        cases there with
        | true => exact iff_of_false (by rintro ⟨_, _, h⟩; cases h) nofun
        | false => exact iff_of_true ⟨i, t, writeAtomic_of_unbalanced hbalance⟩ rfl
    · split
      · next hatomic => exact iff_of_true ⟨i, t, writeAtomic_of_unbalanced hbalance⟩ hatomic
      · next hplain =>
        refine iff_of_false ?_ hplain
        rintro ⟨j, t', h⟩
        exact (FileM.ends_iff.1 (writePlain_ends_balanced j)).2 _ t' h trivial

theorem sources_ne_write {directory : Path} {maxDepth : Json} {room : Nat} {e : WriteError} :
    sources t directory maxDepth room ≠ .error (.write e) := by
  intro h
  obtain ⟨_, h⟩ | ⟨_, h⟩ | ⟨_, h⟩ := sources_error_cases h <;> cases h

theorem loadTable_ne_write {limit : Nat} {suffix : Text} {e : WriteError} :
    loadTable t limit suffix p ≠ .error (.write e) := by
  intro h
  obtain h | ⟨_, _, -, -, h⟩ := loadTable_error_cases h
  · obtain ⟨_, h⟩ | ⟨_, h⟩ | ⟨_, h⟩ | ⟨_, h⟩ | ⟨_, h⟩ := loadDocument_error_cases h <;> cases h
  · cases h

namespace Generator

variable {g : Generator} {commandLine : Except FileError Text}

/-- Generating a text has nothing to do with writing one. -/
theorem generate_ne_write {e : WriteError} : g.generate t commandLine ≠ .error (.write e) := by
  intro h
  rcases bind_eq_error_iff.1 h with h | ⟨tables, -, h⟩
  · rw [tables_eq] at h
    rcases bind_eq_error_iff.1 h with h | ⟨paths, -, h⟩
    · exact sources_ne_write h
    · obtain ⟨_, _, _, -, -, h⟩ := mapM_eq_error_iff.1 h
      exact loadTable_ne_write h
  · rcases bind_eq_error_iff.1 h with h | ⟨body, -, h⟩
    · obtain ⟨_, -, h⟩ := mapError_eq_error_iff.1 h
      cases h
    · rcases bind_eq_error_iff.1 h with h | ⟨above, -, h⟩
      · unfold Generator.comment at h
        split at h
        · cases commandLine with
          | error f => cases h
          | ok line => cases h
        · cases h
      · cases h

theorem write_unbalanced_iff {output : Path} :
    (∃ i t', g.write output commandLine t = .error (.write (.unbalanced i)) t') ↔
      ∃ s content, g.config.output = .settings s ∧ s.Checks t output ∧
        g.generate t commandLine = .ok content ∧ imbalance? content ≠ none := by
  cases hgenerate : g.generate t commandLine with
  | error e =>
    rw [write_of_generate_error hgenerate]
    refine iff_of_false ?_ (by rintro ⟨_, _, -, -, h, -⟩; cases h)
    rintro ⟨i, t', h⟩
    cases h
    exact generate_ne_write hgenerate
  | ok content =>
    cases houtput : g.config.output with
    | value v =>
      rw [write_apply, hgenerate, houtput]
      exact iff_of_false (by rintro ⟨_, _, h⟩; cases h) (by rintro ⟨_, _, h, -⟩; cases h)
    | missing =>
      rw [write_apply, hgenerate, houtput]
      exact iff_of_false (by rintro ⟨_, _, h⟩; cases h) (by rintro ⟨_, _, h, -⟩; cases h)
    | settings s =>
      rw [write_of_generate_ok hgenerate houtput]
      have hresult : (∃ i t', resultOfWriting content (s.write output content t) =
          .error (.write (.unbalanced i)) t') ↔
          ∃ i t', s.write output content t = .error (.unbalanced i) t' := by
        cases s.write output content t with
        | ok _ t' => exact iff_of_false (by rintro ⟨_, _, h⟩; cases h) (by rintro ⟨_, _, h⟩; cases h)
        | error e t' =>
          constructor
          · rintro ⟨i, t'', h⟩
            cases h
            exact ⟨i, t', rfl⟩
          · rintro ⟨i, t'', h⟩
            cases h
            exact ⟨i, t', rfl⟩
      rw [hresult, OutputSettings.write_unbalanced_iff]
      constructor
      · rintro ⟨hchecks, hbalance⟩
        exact ⟨s, content, rfl, hchecks, rfl, hbalance⟩
      · rintro ⟨s', content', hs, hchecks, hcontent, hbalance⟩
        cases hs
        cases hcontent
        exact ⟨hchecks, hbalance⟩

end Generator

end

/-! ### Two runs -/

section

variable {t : FileTree} {i : Invocation} {words words' : List Text} {a : Arguments} {limits : Limits}
  {content line line' : Text}

/-- The call is refused because its text is not balanced. -/
def Rejects (words : List Text) (limits : Limits) (t : FileTree) : Prop :=
  ∃ i t', command words limits t = .error (.failure (.write (.unbalanced i))) t'

namespace Invocation

/-- The run comes to the check of this text. -/
def Checks (i : Invocation) (limits : Limits) (t : FileTree) (content : Text) : Prop :=
  ∃ config s, i.settings limits t = .ok config ∧ config.output = .settings s ∧ s.Checks t i.output ∧
    (Generator.ofConfig i.source config limits).generate t (i.commandLine t) = .ok content

/-- The settings ask for the comment. -/
def IsCommented (i : Invocation) (limits : Limits) (t : FileTree) : Prop :=
  ∃ config, i.settings limits t = .ok config ∧ config.generationComment.isYes

/-- The run comes to the check of this text and maybe of a comment above it. -/
def ChecksBelow (i : Invocation) (limits : Limits) (t : FileTree) (rest : Text) : Prop :=
  ∃ config s, i.settings limits t = .ok config ∧ config.output = .settings s ∧ s.Checks t i.output ∧
    (Generator.ofConfig i.source config limits).uncommented.generate t (.ok []) = .ok rest

theorem ChecksBelow.unique {rest rest' : Text} (h : i.ChecksBelow limits t rest)
    (h' : i.ChecksBelow limits t rest') : rest = rest' := by
  obtain ⟨config, s, hconfig, -, -, hrest⟩ := h
  obtain ⟨config', s', hconfig', -, -, hrest'⟩ := h'
  cases hconfig.symm.trans hconfig'
  exact Except.ok.inj (hrest.symm.trans hrest')

theorem checks_commented_iff (h : i.IsCommented limits t) :
    i.Checks limits t content ↔ ∃ line rest, i.commandLine t = .ok line ∧ i.ChecksBelow limits t rest ∧
      content = Generator.commentLine line ++ "\n" ++ rest := by
  obtain ⟨config, hconfig, hcomment⟩ := h
  constructor
  · rintro ⟨config', s, hconfig', houtput, hchecks, hgenerate⟩
    cases hconfig.symm.trans hconfig'
    obtain ⟨line, rest, hline, hrest, rfl⟩ := (Generator.generate_of_comment hcomment).1 hgenerate
    exact ⟨line, rest, hline, ⟨config, s, hconfig, houtput, hchecks, hrest⟩, rfl⟩
  · rintro ⟨line, rest, hline, ⟨config', s, hconfig', houtput, hchecks, hrest⟩, rfl⟩
    cases hconfig.symm.trans hconfig'
    exact ⟨config, s, hconfig, houtput, hchecks,
      (Generator.generate_of_comment hcomment).2 ⟨line, rest, hline, hrest, rfl⟩⟩

theorem checks_plain_iff (h : ¬i.IsCommented limits t) :
    i.Checks limits t content ↔ i.ChecksBelow limits t content := by
  refine exists_congr fun config => exists_congr fun s => and_congr_right fun hconfig => ?_
  have hno : ¬config.generationComment.isYes := fun hyes => h ⟨config, hconfig, hyes⟩
  rw [Generator.generate_of_no_comment (g := Generator.ofConfig i.source config limits) hno]

/-- The switch decides on the comment only. -/
theorem checksBelow_withComment {rest : Text} :
    (i.withComment true).ChecksBelow limits t rest ↔ (i.withComment false).ChecksBelow limits t rest := by
  have hsettings := i.settings_withComment limits t
  constructor
  · rintro ⟨config, s, hconfig, houtput, hchecks, hrest⟩
    rw [hconfig] at hsettings
    cases hplain : (i.withComment false).settings limits t with
    | error e =>
      rw [hplain] at hsettings
      cases hsettings
    | ok config' =>
      rw [hplain] at hsettings
      cases hsettings
      exact ⟨config', s, hplain, houtput, hchecks, hrest⟩
  · rintro ⟨config, s, hconfig, houtput, hchecks, hrest⟩
    rw [hconfig] at hsettings
    exact ⟨_, s, hsettings, houtput, hchecks, hrest⟩

theorem isCommented_withComment {config : Config} (h : (i.withComment true).settings limits t = .ok config) :
    (i.withComment true).IsCommented limits t := by
  refine ⟨config, h, ?_⟩
  rw [settings_withComment] at h
  cases hplain : (i.withComment false).settings limits t with
  | error e =>
    rw [hplain] at h
    cases h
  | ok config' =>
    rw [hplain] at h
    cases h
    rfl

/-- With the switch on, there is a comment above the text. -/
theorem checks_withComment_iff :
    (i.withComment true).Checks limits t content ↔ ∃ line rest,
      (i.withComment true).commandLine t = .ok line ∧ (i.withComment false).ChecksBelow limits t rest ∧
        content = Generator.commentLine line ++ "\n" ++ rest := by
  constructor
  · intro h
    obtain ⟨config, s, hconfig, -⟩ := id h
    obtain ⟨line, rest, hline, hbelow, hcontent⟩ :=
      (checks_commented_iff (isCommented_withComment hconfig)).1 h
    exact ⟨line, rest, hline, checksBelow_withComment.1 hbelow, hcontent⟩
  · rintro ⟨line, rest, hline, hbelow, hcontent⟩
    have habove := checksBelow_withComment.2 hbelow
    obtain ⟨config, s, hconfig, -⟩ := id habove
    exact (checks_commented_iff (isCommented_withComment hconfig)).2 ⟨line, rest, hline, habove, hcontent⟩

/-- The names of the switches do not count. -/
theorem switchWords_not_counted (a : Arguments) :
    (afterBlanks (switchWords a)).head? ≠ some (('/' : Char) : CodePoint) ∧
      ¬isComment (afterBlanks (switchWords a)) ∧ (afterBlanks (switchWords a)).IsHarmless := by
  have hall : ∀ comment no verbose : Bool, ∀ words, words = displayedSwitch .generationComment comment
      ++ displayedSwitch .noOverwrite no ++ displayedSwitch .verbose verbose →
      (afterBlanks words).head? ≠ some (('/' : Char) : CodePoint) ∧ ¬isComment (afterBlanks words) ∧
        (afterBlanks words).IsHarmless := by
    rintro comment no verbose words rfl
    revert comment no verbose
    decide
  exact hall _ _ _ _ rfl

/-- What the shown command line spills into the code is balanced alike whether it shows the switch for the
comment or not. -/
theorem balanced_withComment {lines : List Text} (h : (i.withComment true).commandLine t = .ok line)
    (h' : (i.withComment false).commandLine t = .ok line') :
    Balanced (spilled line ++ lines) ↔ Balanced (spilled line' ++ lines) := by
  obtain ⟨pieces, hpieces, rfl⟩ := commandLine_eq_ok_iff.1 h
  obtain ⟨pieces', hpieces', rfl⟩ := commandLine_eq_ok_iff.1 h'
  cases hpieces.symm.trans hpieces'
  obtain ⟨hslash, hcode, hharmless⟩ := switchWords_not_counted (i.withComment true).arguments
  obtain ⟨hslash', hcode', hharmless'⟩ := switchWords_not_counted (i.withComment false).arguments
  rw [balanced_spilled_behind hslash hcode hharmless, balanced_spilled_behind hslash' hcode' hharmless']

theorem exists_commandLine_withComment :
    (∃ line, (i.withComment true).commandLine t = .ok line) ↔
      ∃ line, (i.withComment false).commandLine t = .ok line := by
  simp only [commandLine_eq_ok_iff]
  constructor
  · rintro ⟨_, pieces, hpieces, -⟩
    exact ⟨_, pieces, hpieces, rfl⟩
  · rintro ⟨_, pieces, hpieces, -⟩
    exact ⟨_, pieces, hpieces, rfl⟩

/-- The same words with and without the switch resolve alike. -/
theorem ofWords_withComment (h : Arguments.ofWords words = .ok { a with generationComment := true })
    (h' : Arguments.ofWords words' = .ok { a with generationComment := false }) :
    (∃ i : Invocation, Invocation.ofWords t words = .ok (i.withComment true) ∧
        Invocation.ofWords t words' = .ok (i.withComment false)) ∨
      ∃ e, Invocation.ofWords t words = .error e ∧ Invocation.ofWords t words' = .error e := by
  rw [ofWords_of_arguments h, ofWords_of_arguments h', ofArguments_withComment t a true,
    ofArguments_withComment t a false]
  cases ofArguments t a with
  | error e => exact .inr ⟨e, rfl, rfl⟩
  | ok i => exact .inl ⟨i, rfl, rfl⟩

end Invocation

theorem rejects_iff : Rejects words limits t ↔ ∃ i content, Invocation.ofWords t words = .ok i ∧
    i.Checks limits t content ∧ imbalance? content ≠ none := by
  unfold Rejects
  simp only [command_eq_error_write_iff]
  constructor
  · rintro ⟨b, t', i, config, hi, hconfig, hwrite⟩
    obtain ⟨s, content, houtput, hchecks, hgenerate, hbalance⟩ :=
      Generator.write_unbalanced_iff.1 ⟨b, t', hwrite⟩
    exact ⟨i, content, hi, ⟨config, s, hconfig, houtput, hchecks, hgenerate⟩, hbalance⟩
  · rintro ⟨i, content, hi, ⟨config, s, hconfig, houtput, hchecks, hgenerate⟩, hbalance⟩
    obtain ⟨b, t', hwrite⟩ := Generator.write_unbalanced_iff.2
      ⟨s, content, houtput, hchecks, hgenerate, hbalance⟩
    exact ⟨b, t', i, config, hi, hconfig, hwrite⟩

/-- With the switch on, the lines that the comment spills count with the lines of the text. -/
theorem rejects_withComment_iff (hi : Invocation.ofWords t words = .ok (i.withComment true)) :
    Rejects words limits t ↔ ∃ line rest, (i.withComment true).commandLine t = .ok line ∧
      (i.withComment false).ChecksBelow limits t rest ∧ ¬Balanced (spilled line ++ codeLines rest) := by
  rw [rejects_iff]
  constructor
  · rintro ⟨i', content, hi', hchecks, hbalance⟩
    cases hi.symm.trans hi'
    obtain ⟨line, rest, hline, hbelow, rfl⟩ := Invocation.checks_withComment_iff.1 hchecks
    exact ⟨line, rest, hline, hbelow, mt imbalance?_under_comment.2 hbalance⟩
  · rintro ⟨line, rest, hline, hbelow, hbalance⟩
    exact ⟨_, _, hi, Invocation.checks_withComment_iff.2 ⟨line, rest, hline, hbelow, rfl⟩,
      mt imbalance?_under_comment.1 hbalance⟩

/-- So they do when the settings ask for the comment. -/
theorem rejects_commented_iff (hi : Invocation.ofWords t words = .ok i) (h : i.IsCommented limits t) :
    Rejects words limits t ↔ ∃ line rest, i.commandLine t = .ok line ∧ i.ChecksBelow limits t rest ∧
      ¬Balanced (spilled line ++ codeLines rest) := by
  rw [rejects_iff]
  constructor
  · rintro ⟨i', content, hi', hchecks, hbalance⟩
    cases hi.symm.trans hi'
    obtain ⟨line, rest, hline, hbelow, rfl⟩ := (Invocation.checks_commented_iff h).1 hchecks
    exact ⟨line, rest, hline, hbelow, mt imbalance?_under_comment.2 hbalance⟩
  · rintro ⟨line, rest, hline, hbelow, hbalance⟩
    exact ⟨_, _, hi, (Invocation.checks_commented_iff h).2 ⟨line, rest, hline, hbelow, rfl⟩,
      mt imbalance?_under_comment.1 hbalance⟩

theorem rejects_plain_iff (hi : Invocation.ofWords t words = .ok i) (h : ¬i.IsCommented limits t) :
    Rejects words limits t ↔ ∃ rest, i.ChecksBelow limits t rest ∧ ¬Balanced (codeLines rest) := by
  rw [rejects_iff]
  constructor
  · rintro ⟨i', content, hi', hchecks, hbalance⟩
    cases hi.symm.trans hi'
    exact ⟨content, (Invocation.checks_plain_iff h).1 hchecks, mt imbalance?_eq_none_iff.2 hbalance⟩
  · rintro ⟨rest, hbelow, hbalance⟩
    exact ⟨i, rest, hi, (Invocation.checks_plain_iff h).2 hbelow, mt imbalance?_eq_none_iff.1 hbalance⟩

/-- Where the settings ask for the comment, the switch makes no difference. -/
theorem rejects_alike_of_commented (hi : Invocation.ofWords t words = .ok (i.withComment true))
    (hi' : Invocation.ofWords t words' = .ok (i.withComment false))
    (h : (i.withComment false).IsCommented limits t) : Rejects words limits t ↔ Rejects words' limits t := by
  rw [rejects_withComment_iff hi, rejects_commented_iff hi' h]
  constructor
  · rintro ⟨line, rest, hline, hbelow, hbalance⟩
    obtain ⟨line', hline'⟩ := Invocation.exists_commandLine_withComment.1 ⟨line, hline⟩
    exact ⟨line', rest, hline', hbelow, mt (Invocation.balanced_withComment hline hline').2 hbalance⟩
  · rintro ⟨line', rest, hline', hbelow, hbalance⟩
    obtain ⟨line, hline⟩ := Invocation.exists_commandLine_withComment.2 ⟨line', hline'⟩
    exact ⟨line, rest, hline, hbelow, mt (Invocation.balanced_withComment hline hline').1 hbalance⟩

/-- Where they do not, the two calls are refused alike if it makes no difference to the text that what the
command line spills stands above it. -/
theorem rejects_alike_iff_of_plain (hi : Invocation.ofWords t words = .ok (i.withComment true))
    (hi' : Invocation.ofWords t words' = .ok (i.withComment false))
    (h : ¬(i.withComment false).IsCommented limits t) :
    (Rejects words limits t ↔ Rejects words' limits t) ↔
      ∀ content, (i.withComment false).ChecksBelow limits t content →
      ((∃ line, (i.withComment true).commandLine t = .ok line ∧
        ¬Balanced (spilled line ++ codeLines content)) ↔ ¬Balanced (codeLines content)) := by
  rw [rejects_withComment_iff hi, rejects_plain_iff hi' h]
  constructor
  · intro hagree content hbelow
    constructor
    · rintro ⟨line, hline, hbalance⟩
      obtain ⟨rest, hrest, hbalance⟩ := hagree.1 ⟨line, content, hline, hbelow, hbalance⟩
      rwa [hbelow.unique hrest]
    · intro hbalance
      obtain ⟨line, rest, hline, hrest, hbalance⟩ := hagree.2 ⟨content, hbelow, hbalance⟩
      rw [← hbelow.unique hrest] at hbalance
      exact ⟨line, hline, hbalance⟩
  · intro hall
    constructor
    · rintro ⟨line, rest, hline, hbelow, hbalance⟩
      exact ⟨rest, hbelow, (hall rest hbelow).1 ⟨line, hline, hbalance⟩⟩
    · rintro ⟨rest, hbelow, hbalance⟩
      obtain ⟨line, hline, hbalance⟩ := (hall rest hbelow).2 hbalance
      exact ⟨line, rest, hline, hbelow, hbalance⟩

/-- A call with paths that do not resolve is not refused for the balance. -/
theorem not_rejects_of_error {e : CommandError} (h : Invocation.ofWords t words = .error e) :
    ¬Rejects words limits t := by
  rw [rejects_iff]
  rintro ⟨i, content, hi, -⟩
  cases h.symm.trans hi

end

/-- The comment and the check. Two calls whose arguments are the same, except for the switch for the comment,
are refused alike by the check before writing exactly if this holds: where no settings ask for the comment
anyway, it makes no difference to the text that is checked without it whether the lines that the shown
command line spills stand above it. That is so whenever the command line can be shown and has no line breaks;
then brackets and all else in it do not count. -/
theorem rejected_alike_iff (words words' : List Text) (a : Arguments) (limits : Limits) (t : FileTree)
    (h : Arguments.ofWords words = .ok { a with generationComment := true })
    (h' : Arguments.ofWords words' = .ok { a with generationComment := false }) :
    ((Rejects words limits t ↔ Rejects words' limits t) ↔
      ∀ i content, Invocation.ofWords t words' = .ok i → ¬i.IsCommented limits t → i.Checks limits t content →
        ((∃ line, (i.withComment true).commandLine t = .ok line ∧
          ¬Balanced (spilled line ++ codeLines content)) ↔ ¬Balanced (codeLines content))) ∧
    ((∀ i, Invocation.ofWords t words = .ok i → ∃ line, i.commandLine t = .ok line ∧ line.IsUnbroken) →
      (Rejects words limits t ↔ Rejects words' limits t)) := by
  rcases Invocation.ofWords_withComment (t := t) h h' with ⟨i, hi, hi'⟩ | ⟨e, he, he'⟩
  · by_cases hcommented : (i.withComment false).IsCommented limits t
    · have hagree := rejects_alike_of_commented hi hi' hcommented
      refine ⟨iff_of_true hagree ?_, fun _ => hagree⟩
      intro j content hj hno
      cases hi'.symm.trans hj
      exact absurd hcommented hno
    · have hiff := rejects_alike_iff_of_plain hi hi' hcommented
      constructor
      · rw [hiff]
        constructor
        · intro hall j content hj _ hchecks
          cases hi'.symm.trans hj
          exact hall content ((Invocation.checks_plain_iff hcommented).1 hchecks)
        · intro hall content hbelow
          exact hall (i.withComment false) content hi' hcommented
            ((Invocation.checks_plain_iff hcommented).2 hbelow)
      · intro hlines
        obtain ⟨line, hline, hbreaks⟩ := hlines _ hi
        refine hiff.2 fun content _ => ?_
        have hsame : spilled line ++ codeLines content = codeLines content := by
          rw [spilled_eq_nil hbreaks, List.nil_append]
        constructor
        · rintro ⟨line', hline', hbalance⟩
          cases hline.symm.trans hline'
          rwa [hsame] at hbalance
        · intro hbalance
          exact ⟨line, hline, by rwa [hsame]⟩
  · have hno : ¬Rejects words limits t := not_rejects_of_error he
    have hno' : ¬Rejects words' limits t := not_rejects_of_error he'
    refine ⟨iff_of_true (iff_of_false hno hno') ?_, fun _ => iff_of_false hno hno'⟩
    intro i content hi
    cases he'.symm.trans hi

/-- A call for a package whose name has a bracket is refused, with or without the comment that shows it. -/
theorem bareTree_rejects :
    Rejects ["--package", "(", "/chests", "/Loot.java"] commandLimits bareTree ∧
      Rejects ["--generation-comment", "--package", "(", "/chests", "/Loot.java"] commandLimits bareTree := by
  have hplain : FileM.failsWith (command ["--package", "(", "/chests", "/Loot.java"]) bareTree fun e _ =>
      e = .failure (.write (.unbalanced ⟨⟨'(', ')'⟩, 1, 0⟩)) := by decide +kernel
  obtain ⟨e, t', hcommand, he⟩ := FileM.exists_error_of_failsWith hplain
  obtain rfl := of_decide_eq_true he
  have hrejects : Rejects ["--package", "(", "/chests", "/Loot.java"] commandLimits bareTree :=
    ⟨_, t', hcommand⟩
  have hswitch : Arguments.ofWords ["--generation-comment", "--package", "(", "/chests", "/Loot.java"] =
      .ok { generationComment := true, packageName := some "(", positional := ["/chests", "/Loot.java"] } :=
    Arguments.ofWords_cons_switch .generationComment ["--package", "(", "/chests", "/Loot.java"]
  refine ⟨hrejects, ((rejected_alike_iff _ _
    { packageName := some "(", positional := ["/chests", "/Loot.java"] } commandLimits bareTree hswitch rfl).2
    fun i hi => ?_).2 hrejects⟩
  have hshown : (Invocation.ofWords bareTree
      ["--generation-comment", "--package", "(", "/chests", "/Loot.java"]).toOption.all fun i =>
        (i.commandLine bareTree).toOption.any fun line => line.IsUnbroken := by decide +kernel
  rw [hi] at hshown
  obtain ⟨line, hline, hbreaks⟩ := exists_eq_ok_of_any hshown
  exact ⟨line, hline, of_decide_eq_true hbreaks⟩

/-- A document in a directory with a line break and a bracket in its name. -/
def brokenNameTree : FileTree :=
  ((FileTree.empty []).put ["loot\n("] .directory).put ["loot\n(", "small.json"]
    (.file (noPools.map fun c => UInt8.ofNat c.val))

/-- Shown in the comment, the bracket counts as code. -/
theorem brokenNameTree_rejects :
    ¬∀ (words words' : List Text) (a : Arguments) (t : FileTree),
      Arguments.ofWords words = .ok { a with generationComment := true } →
      Arguments.ofWords words' = .ok { a with generationComment := false } →
      (Rejects words commandLimits t ↔ Rejects words' commandLimits t) := by
  intro hall
  have hfails : FileM.failsWith (command ["loot\n(", "out.txt", "--generation-comment"]) brokenNameTree
      fun e _ => e = .failure (.write (.unbalanced ⟨⟨'(', ')'⟩, 2, 1⟩)) := by decide +kernel
  obtain ⟨e, t', hcommand, he⟩ := FileM.exists_error_of_failsWith hfails
  obtain rfl := of_decide_eq_true he
  obtain ⟨text, t₁, hplain⟩ := FileM.exists_ok_of_run'_isSome (x := command ["loot\n(", "out.txt"])
    (t := brokenNameTree) (by decide +kernel)
  obtain ⟨i, t₂, hrejected⟩ := (hall ["loot\n(", "out.txt", "--generation-comment"] ["loot\n(", "out.txt"]
    { positional := ["loot\n(", "out.txt"] } brokenNameTree rfl rfl).1 ⟨_, t', hcommand⟩
  cases hplain.symm.trans hrejected

end LootTables
