import LootTables.Proofs.Command.Comment
import LootTables.Proofs.Command.Shown
import LootTables.Proofs.Text.Utf8

/-!
# Calls with the comment, made twice

A call that has succeeded should reproduce its file when it is made again at once. Below the comment it
does: the paths resolve as before (`Invocation.ofWords_again`), the settings and the text are the same, and
what is written is refused for its balance at most. But the comment shows an output by its last name only
when it is there, so that a second call shows a new output in another way than the first one. This is when
the two files differ (`repeated_alike_iff`).

There are three other obstacles to a second call. Where the settings are read from the output itself, they
have been overwritten, and a text with a comment is no document (`Json.read_slash`). Settings that forbid to
overwrite do so for the second call. And the directories that were made for a new output may take the second
search for sources to a limit, which they cannot do where the output was there before
(`Invocation.Wrote.withinLimits_of_found`).
-/

namespace LootTables

/-! ### Settings that have been overwritten -/

namespace Json

theorem readWord?_slash (s : Text) : readWord? (Path.slash :: s) = none := rfl

theorem readNumber_slash (s : Text) :
    readNumber (Path.slash :: s) = .error (.fault .value (Path.slash :: s)) := rfl

/-- Nothing that begins with a slash is a document. -/
theorem read_slash (s : Text) (limit : Nat) : ∃ e, read (Path.slash :: s) limit = .error e := by
  have hvalue : ∀ depth, readValue depth (Path.slash :: s) = .error (.fault .value (Path.slash :: s)) := by
    intro depth
    rw [readValue.eq_def]
    simp only [readWord?_slash, readNumber_slash]
    rfl
  have hblanks : skipBlanks (Path.slash :: s) = Path.slash :: s := rfl
  unfold read
  rw [if_neg (by simp; decide), hblanks, hvalue]
  exact ⟨_, rfl⟩

end Json

section

variable {t t₁ t₂ : FileTree} {i : Invocation} {p : Path} {l : Location} {words : List Text}
  {config : Config} {limits : Limits} {s : OutputSettings} {line rest text : Text}

namespace Invocation

/-- A file with a comment on top holds no settings. -/
theorem loadConfig_commented (limit : Nat)
    (hreceives : t.Receives t₁ p (Generator.commentLine line ++ "\n" ++ rest)) :
    ∃ e, loadConfig t₁ limit p = .error e := by
  obtain ⟨bytes, hencode, hcontent⟩ := hreceives.contentOf
  obtain ⟨e, hread⟩ := Json.read_slash
    (Text.unifyNewlines ((Generator.commentLine line ++ "\n" ++ rest).tail)) limit
  have hunified : (Generator.commentLine line ++ "\n" ++ rest).unifyNewlines =
      Path.slash :: Text.unifyNewlines ((Generator.commentLine line ++ "\n" ++ rest).tail) := rfl
  refine ⟨.badJson e, ?_⟩
  unfold loadConfig
  rw [hcontent, Except.mapError, ok_bind, Utf8.decode_of_encode hencode, Except.mapError, ok_bind, hunified,
    hread]
  rfl

/-! ### Resolving again -/

/-- Of what is there, only whether it is a directory can be complained of. -/
theorem complaint?_congr {parameter : PathParameter} {node node' : Node}
    (hdirectory : node' = .directory ↔ node = .directory) :
    parameter.complaint? (some node') = parameter.complaint? (some node) := by
  cases node' with
  | directory => rw [hdirectory.1 rfl]
  | file bytes' =>
    cases node with
    | directory => exact absurd (hdirectory.2 rfl) nofun
    | file bytes => cases parameter <;> rfl

/-- What a parameter stands for before a write, it stands for afterwards. -/
theorem resolve_again (h : t.StoresAt t₁ l) {parameter : PathParameter} {word : Text}
    (houtput : parameter = .output → t₁.locate p = .ok l) (hp : resolve t parameter word = .ok p) :
    resolve t₁ parameter word = .ok p := by
  obtain ⟨hnul, hplace, hcomplaint⟩ := resolve_eq_ok_iff.1 hp
  rw [← h.keeps.workingDirectory] at hplace
  refine resolve_eq_ok_iff.2 ⟨hnul, hplace, ?_⟩
  cases hfind : t.find p with
  | ok found =>
    obtain ⟨node', hfind', hdirectory⟩ := h.find hfind
    rw [hfind] at hcomplaint
    rw [hfind']
    exact (complaint?_congr hdirectory).trans hcomplaint
  | error fault =>
    rw [hfind] at hcomplaint
    -- Only the output may be missing, and it is what has been written.
    cases parameter with
    | config => cases hcomplaint
    | source => cases hcomplaint
    | output =>
      obtain ⟨bytes, hfile⟩ := h.file
      rw [FileTree.find_eq_ok_iff.2 ⟨houtput rfl, hfile⟩]
      rfl

/-- A call that has written its output is read as before. -/
theorem ofWords_again (h : t.StoresAt t₁ l) (hl : t₁.locate i.output = .ok l)
    (hi : Invocation.ofWords t words = .ok i) : Invocation.ofWords t₁ words = .ok i := by
  obtain ⟨ha, hconfig, hsource, houtput, hextra⟩ := ofWords_eq_ok_iff.1 hi
  refine ofWords_eq_ok_iff.2 ⟨ha, ?_, resolve_again h nofun hsource, resolve_again h (fun _ => hl) houtput,
    hextra⟩
  cases hword : i.arguments.config with
  | none =>
    rw [hword] at hconfig
    exact hconfig
  | some word =>
    rw [hword] at hconfig
    obtain ⟨p, hp, hpure⟩ := bind_eq_ok_iff.1 hconfig
    exact bind_eq_ok_iff.2 ⟨p, resolve_again h nofun hp, hpure⟩

/-- The paths of a call are such that reading takes writing back. -/
theorem isPlain_of_resolve (hnames : t.HasFileNames) (hhere : t.nodeAt t.workingDirectory = some .directory)
    {parameter : PathParameter} {word : Text} (hp : resolve t parameter word = .ok p) : p.IsPlain := by
  obtain ⟨-, rfl, -⟩ := resolve_eq_ok_iff.1 hp
  refine Path.isPlain_absolute (fun name hname => ?_) (Path.isPlain_ofText word)
  have hfile := FileTree.hasFileNames_iff.1 hnames t.workingDirectory (by simp [hhere]) name hname
  exact ⟨hfile.noSlash, hfile.ne_nil, hfile.ne_selfName⟩

/-- There has to be something at a path that is read. -/
theorem find_of_resolve {parameter : PathParameter} {word : Text} (hparameter : parameter ≠ .output)
    (hp : resolve t parameter word = .ok p) : ∃ found, t.find p = .ok found := by
  obtain ⟨-, -, hcomplaint⟩ := resolve_eq_ok_iff.1 hp
  cases hfind : t.find p with
  | ok found => exact ⟨found, rfl⟩
  | error fault =>
    rw [hfind] at hcomplaint
    cases parameter with
    | config => cases hcomplaint
    | source => cases hcomplaint
    | output => exact absurd rfl hparameter

/-- What is found is shown by its last name. -/
theorem displayed_of_find {found : Location × Node} (hp : p.IsPlain) (hfind : t.find p = .ok found) :
    displayed t p.text = .ok p.name := by
  have hread := Path.ofText_text hp
  refine displayed_eq_ok_iff.2 ⟨true, ?_, by rw [hread, if_pos rfl]⟩
  rw [hread]
  exact FileTree.fileOrDirectoryExists_eq_ok_iff.2 ⟨by simp [hfind], iff_of_true rfl ⟨found, hfind⟩⟩

/-! ### Settings again -/

theorem exists_resolve_config (hi : Invocation.ofWords t words = .ok i) (hfile : i.config = some p) :
    ∃ word, i.arguments.config = some word ∧ resolve t .config word = .ok p := by
  obtain ⟨-, hconfig, -⟩ := ofWords_eq_ok_iff.1 hi
  rw [hfile] at hconfig
  cases hword : i.arguments.config with
  | none =>
    rw [hword] at hconfig
    cases hconfig
  | some word =>
    rw [hword] at hconfig
    obtain ⟨q, hq, hpure⟩ := bind_eq_ok_iff.1 hconfig
    cases hpure
    exact ⟨word, rfl, hq⟩

/-- Another file than the output lies at another place. -/
theorem locate_config_ne (hi : Invocation.ofWords t words = .ok i) (hfile : i.config = some p)
    (hne : p ≠ i.output) (hl : t₁.locate i.output = .ok l) : t₁.locate p ≠ .ok l := by
  obtain ⟨word, -, hp⟩ := exists_resolve_config hi hfile
  have hresolved := isResolved_of_resolve hp
  have hresolved' := (of_ofWords hi).2
  intro hk
  obtain ⟨-, hparts, -⟩ := (FileTree.locate_resolved_iff hresolved).1 hk
  obtain ⟨-, hparts', -⟩ := (FileTree.locate_resolved_iff hresolved').1 hl
  refine hne ?_
  calc p = ⟨.root, p.parts⟩ := congrArg (Path.mk · p.parts) hresolved.anchor
    _ = ⟨.root, i.output.parts⟩ := congrArg _ (hparts.symm.trans hparts')
    _ = i.output := congrArg (Path.mk · i.output.parts) hresolved'.anchor.symm

/-- Settings in another file than the output are read as before. -/
theorem settings_again (h : t.StoresAt t₁ l) (hl : t₁.locate i.output = .ok l)
    (hi : Invocation.ofWords t words = .ok i) (hconfig : i.settings limits t = .ok config)
    (hother : i.config ≠ some i.output) : i.settings limits t₁ = .ok config := by
  rw [← hconfig]
  unfold settings
  cases hfile : i.config with
  | none => rfl
  | some p =>
    have hne := locate_config_ne hi hfile (fun heq => hother (heq ▸ hfile)) hl
    unfold settings at hconfig
    rw [hfile] at hconfig
    obtain ⟨stored, hstored, -⟩ := bind_eq_ok_iff.1 hconfig
    obtain ⟨bytes, hbytes, -⟩ := bind_eq_ok_iff.1 hstored
    have hbytes := mapError_eq_ok_iff.1 hbytes
    have hload : loadConfig t₁ limits.settings p = loadConfig t limits.settings p := by
      unfold loadConfig
      rw [hbytes, h.contentOf hne hbytes]
    rw [Option.elim_some, Option.elim_some, hload]

/-- Settings in the output itself are lost. -/
theorem settings_overwritten (hreceives : t.Receives t₁ i.output (Generator.commentLine line ++ "\n" ++ rest))
    (hfile : i.config = some i.output) : i.settings limits t₁ ≠ .ok config := by
  obtain ⟨e, hload⟩ := loadConfig_commented limits.settings hreceives
  unfold settings
  rw [hfile, Option.elim_some, hload]
  exact nofun

/-- With the switch on, the settings ask for the comment. -/
theorem isYes_of_settings (hcomment : i.arguments.generationComment)
    (hconfig : i.settings limits t = .ok config) : config.generationComment.isYes := by
  have hon : i.withComment true = i := by
    unfold withComment
    rw [← hcomment]
  rw [← hon] at hconfig
  obtain ⟨config', hconfig', hyes⟩ := isCommented_withComment hconfig
  cases hconfig.symm.trans hconfig'
  exact hyes

/-! ### Two runs -/

/-- The run has written a text under the comment that shows its command line, and left the tree `t₁`. -/
structure Wrote (i : Invocation) (limits : Limits) (config : Config) (s : OutputSettings) (line rest : Text)
    (t t₁ : FileTree) : Prop where
  settings : i.settings limits t = .ok config
  output : config.output = .settings s
  shown : i.commandLine t = .ok line
  generated : (Generator.ofConfig i.source config limits).uncommented.generate t (.ok []) = .ok rest
  written : s.write i.output (Generator.commentLine line ++ "\n" ++ rest) t = .ok () t₁

theorem command_eq_ok_iff_of_comment (hi : Invocation.ofWords t words = .ok i)
    (hcomment : i.arguments.generationComment) : command words limits t = .ok text t₁ ↔
      ∃ config s line rest, i.Wrote limits config s line rest t t₁ ∧
        text = Generator.commentLine line ++ "\n" ++ rest := by
  rw [command_eq_ok_iff]
  constructor
  · rintro ⟨i', config, hi', hconfig, hwrite⟩
    cases hi.symm.trans hi'
    obtain ⟨s, houtput, hgenerate, hwrite⟩ := Generator.write_eq_ok_iff.1 hwrite
    have hyes : (Generator.ofConfig i.source config limits).config.generationComment.isYes :=
      isYes_of_settings hcomment hconfig
    obtain ⟨line, rest, hline, hrest, rfl⟩ := (Generator.generate_of_comment hyes).1 hgenerate
    exact ⟨config, s, line, rest, ⟨hconfig, houtput, hline, hrest, hwrite⟩, rfl⟩
  · rintro ⟨config, s, line, rest, h, rfl⟩
    have hyes : (Generator.ofConfig i.source config limits).config.generationComment.isYes :=
      isYes_of_settings hcomment h.settings
    have hgenerate := (Generator.generate_of_comment hyes).2 ⟨line, rest, h.shown, h.generated, rfl⟩
    exact ⟨i, config, hi, h.settings, Generator.write_eq_ok_iff.2 ⟨s, h.output, hgenerate, h.written⟩⟩

namespace Wrote

variable {config' : Config} {s' : OutputSettings} {line' rest' : Text}

theorem receives (h : i.Wrote limits config s line rest t t₁) : ∃ t', makeParent i.output t = .ok () t' ∧
    t'.Receives t₁ i.output (Generator.commentLine line ++ "\n" ++ rest) :=
  s.receives_of_write h.written

theorem storesAt (h : i.Wrote limits config s line rest t t₁) :
    ∃ l, t₁.locate i.output = .ok l ∧ t.StoresAt t₁ l := by
  obtain ⟨t', hmake, hreceives⟩ := h.receives
  exact FileTree.storesAt_of_receives hmake hreceives

section

variable (h : i.Wrote limits config s line rest t t₁) (grounded : t.IsGrounded) (hnames : t.HasFileNames)
  (hhere : t.nodeAt t.workingDirectory = some .directory)
include h grounded hnames hhere

/-- Where the output was there before, the second search meets no limit either. -/
theorem withinLimits_of_found (hfound : ∃ found, t.find i.output = .ok found) :
    (Generator.ofConfig i.source config limits).WithinLimits t₁ := by
  obtain ⟨⟨k, node⟩, hfind⟩ := hfound
  obtain ⟨hk, hnode⟩ := FileTree.find_eq_ok_iff.1 hfind
  obtain ⟨l, hl, stores⟩ := h.storesAt
  cases (stores.keeps.locate hk).symm.trans hl
  have hparts := FileTree.parts_ne_nil_of_locate hhere hk stores.place
  obtain ⟨m, hparent⟩ := FileTree.find_parent_of_locate hparts hk
  obtain ⟨k', hk', differ⟩ := (s.receives_of_directory hparent h.written).differAt
  cases hk.symm.trans hk'
  exact Generator.withinLimits_of_differAt differ (fun _ => by simp [hnode])
    (Generator.withinLimits_of_generate (g := (Generator.ofConfig i.source config limits).uncommented)
      grounded hnames h.generated)

variable (hi : Invocation.ofWords t words = .ok i) (hsource : ∀ l, t₁.locate i.output = .ok l →
  ¬(Generator.ofConfig i.source config limits).TakesUp t₁ l)
include hi hsource

/-- What is below the comment can be generated again, if the second search meets no limit. -/
theorem generate_again_iff :
    (Generator.ofConfig i.source config limits).uncommented.generate t₁ (.ok []) = .ok rest' ↔
      (Generator.ofConfig i.source config limits).WithinLimits t₁ ∧ rest' = rest := by
  obtain ⟨t', hmake, hreceives⟩ := h.receives
  obtain ⟨-, -, -, houtput, -⟩ := ofWords_eq_ok_iff.1 hi
  exact Generator.generate_after_receives_iff hmake hreceives grounded hnames hhere
    (isPlain_of_resolve hnames hhere houtput) h.generated hsource

/-- A second run has the same settings and the same text, and the comment of its own. -/
theorem again_iff : i.Wrote limits config' s' line' rest' t₁ t₂ ↔
    i.config ≠ some i.output ∧ (Generator.ofConfig i.source config limits).WithinLimits t₁ ∧
      config' = config ∧ s' = s ∧ rest' = rest ∧ i.commandLine t₁ = .ok line' ∧
      s.write i.output (Generator.commentLine line' ++ "\n" ++ rest) t₁ = .ok () t₂ := by
  obtain ⟨l, hl, stores⟩ := h.storesAt
  constructor
  · intro h'
    obtain ⟨t', -, hreceives⟩ := h.receives
    have hother : i.config ≠ some i.output := fun hfile => settings_overwritten hreceives hfile h'.settings
    cases (settings_again stores hl hi h.settings hother).symm.trans h'.settings
    cases h.output.symm.trans h'.output
    obtain ⟨within₁, rfl⟩ := (h.generate_again_iff grounded hnames hhere hi hsource).1 h'.generated
    exact ⟨hother, within₁, rfl, rfl, rfl, h'.shown, h'.written⟩
  · rintro ⟨hother, within₁, rfl, rfl, rfl, hline, hwrite⟩
    have hgenerate := (h.generate_again_iff grounded hnames hhere hi hsource).2 ⟨within₁, rfl⟩
    exact ⟨settings_again stores hl hi h.settings hother, h.output, hline, hgenerate, hwrite⟩

end

/-- The comment of a second run can be encoded, since it shows nothing new. -/
theorem exists_encode_again (h : i.Wrote limits config s line rest t t₁) (hline : i.commandLine t₁ = .ok line') :
    ∃ bytes, Utf8.encode (Generator.commentLine line' ++ "\n" ++ rest) = .ok bytes := by
  obtain ⟨t', -, hreceives⟩ := h.receives
  obtain ⟨bytes, hencode, -⟩ := hreceives.contentOf
  obtain ⟨l, -, stores⟩ := h.storesAt
  have hsubset := subset_commandLine stores h.shown hline
  have hplain := Utf8.exists_encode_iff.1 ⟨bytes, hencode⟩
  refine Utf8.exists_encode_iff.2 fun c hc => hplain c ?_
  unfold Generator.commentLine at hc ⊢
  simp only [List.mem_append] at hc ⊢
  exact hc.imp_left (Or.imp_left (Or.imp_right (hsubset ·)))

/-- A second run writes its text if overwriting is allowed and the text passes the check. -/
theorem exists_written_again_iff (h : i.Wrote limits config s line rest t t₁)
    (hline : i.commandLine t₁ = .ok line') :
    (∃ t₂, s.write i.output (Generator.commentLine line' ++ "\n" ++ rest) t₁ = .ok () t₂) ↔
      s.mode ≠ .known .errorIfExists ∧
        (s.atomicWrite.isYes → imbalance? (Generator.commentLine line' ++ "\n" ++ rest) = none) := by
  by_cases hmode : s.mode = .known .errorIfExists
  · obtain ⟨l, hl, stores⟩ := h.storesAt
    obtain ⟨bytes, hfile⟩ := stores.file
    refine iff_of_false ?_ fun hno => hno.1 hmode
    rintro ⟨t₂, hwrite⟩
    exact s.not_found_of_write hmode hwrite _ (FileTree.find_eq_ok_iff.2 ⟨hl, hfile⟩)
  · obtain ⟨bytes, hencode⟩ := h.exists_encode_again hline
    rw [and_iff_right hmode]
    exact s.exists_write_again_iff hmode h.written hencode

/-- Where the output was there before, it is shown as before. -/
theorem commandLine_again (h : i.Wrote limits config s line rest t t₁)
    (hhere : t.nodeAt t.workingDirectory = some .directory)
    (hfound : ∃ found, t.find i.output = .ok found) : i.commandLine t₁ = .ok line := by
  obtain ⟨l, hl, stores⟩ := h.storesAt
  obtain ⟨⟨k, node⟩, hfind⟩ := hfound
  obtain ⟨hk, hnode⟩ := FileTree.find_eq_ok_iff.1 hfind
  cases (stores.keeps.locate hk).symm.trans hl
  have hparts := FileTree.parts_ne_nil_of_locate hhere hk stores.place
  obtain ⟨m, hparent⟩ := FileTree.find_parent_of_locate hparts hk
  obtain ⟨k', hk', differ⟩ := (s.receives_of_directory hparent h.written).differAt
  cases hk.symm.trans hk'
  obtain ⟨bytes, hfile⟩ := stores.file
  rw [commandLine_of_differAt differ (by simp [hnode]) (by simp [hfile]), h.shown]

/-- Where it was not, it is shown in another way. -/
theorem commandLine_ne (h : i.Wrote limits config s line rest t t₁) (hi : Invocation.ofWords t words = .ok i)
    (hnames : t.HasFileNames) (hhere : t.nodeAt t.workingDirectory = some .directory)
    (hfresh : ∀ found, t.find i.output ≠ .ok found) (hline : i.commandLine t₁ = .ok line') :
    line ≠ line' := by
  obtain ⟨l, hl, stores⟩ := h.storesAt
  obtain ⟨bytes, hfile⟩ := stores.file
  obtain ⟨-, -, hsource, houtput, -⟩ := ofWords_eq_ok_iff.1 hi
  have hplain := isPlain_of_resolve hnames hhere hsource
  obtain ⟨found, hfind⟩ := find_of_resolve (by decide) hsource
  obtain ⟨node, hfind', -⟩ := stores.find hfind
  have hshown : displayed t₁ i.source.text = displayed t i.source.text :=
    (displayed_of_find hplain hfind').trans (displayed_of_find hplain hfind).symm
  exact commandLine_ne_of_fresh (isResolved_of_resolve houtput).anchor
    (isPlain_of_resolve hnames hhere houtput) hshown hfresh ⟨_, FileTree.find_eq_ok_iff.2 ⟨hl, hfile⟩⟩
    h.shown hline

/-- When a second call succeeds, and with which text. -/
theorem command_again_iff (h : i.Wrote limits config s line rest t t₁) (grounded : t.IsGrounded)
    (hnames : t.HasFileNames) (hhere : t.nodeAt t.workingDirectory = some .directory)
    (hi : Invocation.ofWords t words = .ok i) (hcomment : i.arguments.generationComment)
    (hsource : ∀ l, t₁.locate i.output = .ok l →
      ¬(Generator.ofConfig i.source config limits).TakesUp t₁ l) :
    (∃ t₂, command words limits t₁ = .ok text t₂) ↔ i.config ≠ some i.output ∧
      s.mode ≠ .known .errorIfExists ∧ (Generator.ofConfig i.source config limits).WithinLimits t₁ ∧
      ∃ line', i.commandLine t₁ = .ok line' ∧ text = Generator.commentLine line' ++ "\n" ++ rest ∧
        (s.atomicWrite.isYes → imbalance? text = none) := by
  obtain ⟨l, hl, stores⟩ := h.storesAt
  have hi₁ := ofWords_again stores hl hi
  constructor
  · rintro ⟨t₂, hagain⟩
    obtain ⟨config', s', line', rest', h', rfl⟩ := (command_eq_ok_iff_of_comment hi₁ hcomment).1 hagain
    obtain ⟨hother, within₁, -, -, rfl, hline, hwrite⟩ :=
      (h.again_iff grounded hnames hhere hi hsource).1 h'
    obtain ⟨hmode, hbalance⟩ := (h.exists_written_again_iff hline).1 ⟨t₂, hwrite⟩
    exact ⟨hother, hmode, within₁, line', hline, rfl, hbalance⟩
  · rintro ⟨hother, hmode, within₁, line', hline, rfl, hbalance⟩
    obtain ⟨t₂, hwrite⟩ := (h.exists_written_again_iff hline).2 ⟨hmode, hbalance⟩
    have h' := (h.again_iff grounded hnames hhere hi hsource).2
      ⟨hother, within₁, rfl, rfl, rfl, hline, hwrite⟩
    exact ⟨t₂, (command_eq_ok_iff_of_comment hi₁ hcomment).2 ⟨config, s, line', rest, h', rfl⟩⟩

/-- A second call that succeeds changes nothing but the output. -/
theorem receives_again (h : i.Wrote limits config s line rest t t₁) (hi : Invocation.ofWords t words = .ok i)
    (hagain : command words limits t₁ = .ok text t₂) : t₁.Receives t₂ i.output text := by
  obtain ⟨l, hl, stores⟩ := h.storesAt
  obtain ⟨k, hparent⟩ := s.find_parent_of_write h.written
  obtain ⟨i', config', hi', -, hwrite⟩ := command_eq_ok_iff.1 hagain
  cases (ofWords_again stores hl hi).symm.trans hi'
  obtain ⟨s', -, -, hwrite⟩ := Generator.write_eq_ok_iff.1 hwrite
  exact s'.receives_of_directory hparent hwrite

/-- A command line without line breaks keeps its text balanced, and so does what is shown of it later. -/
theorem balanced_again (h : i.Wrote limits config s line rest t t₁) (hmode : s.mode ≠ .known .errorIfExists)
    (hatomic : s.atomicWrite.isYes) (hunbroken : line.IsUnbroken) (hline : i.commandLine t₁ = .ok line') :
    imbalance? (Generator.commentLine line' ++ "\n" ++ rest) = none := by
  obtain ⟨l, -, stores⟩ := h.storesAt
  have hunbroken' : line'.IsUnbroken := fun c hc =>
    hunbroken c (subset_commandLine stores h.shown hline hc)
  have hbalance := imbalance?_under_comment.1 (s.balanced_of_write hmode h.written hatomic)
  rw [spilled_eq_nil hunbroken] at hbalance
  rwa [imbalance?_under_comment, spilled_eq_nil hunbroken']

/-- A second call writes the same bytes exactly if the output was there before the first one, and was not
the file with the settings. -/
theorem same_content_again_iff (h : i.Wrote limits config s line rest t t₁) (grounded : t.IsGrounded)
    (hnames : t.HasFileNames) (hhere : t.nodeAt t.workingDirectory = some .directory)
    (hi : Invocation.ofWords t words = .ok i) (hcomment : i.arguments.generationComment)
    (hsource : ∀ l, t₁.locate i.output = .ok l → ¬(Generator.ofConfig i.source config limits).TakesUp t₁ l) :
    (∃ text t₂, command words limits t₁ = .ok text t₂ ∧ t₂.contentOf i.output = t₁.contentOf i.output) ↔
      (∃ found, t.find i.output = .ok found) ∧ i.config ≠ some i.output := by
  obtain ⟨t', -, hreceives⟩ := h.receives
  obtain ⟨bytes, hencode, hcontent⟩ := hreceives.contentOf
  constructor
  · rintro ⟨text, t₂, hagain, hsame⟩
    obtain ⟨bytes', hencode', hcontent'⟩ := (h.receives_again hi hagain).contentOf
    obtain ⟨hother, -, -, line', hline, rfl, -⟩ :=
      (h.command_again_iff grounded hnames hhere hi hcomment hsource).1 ⟨t₂, hagain⟩
    refine ⟨?_, hother⟩
    by_contra hfresh
    refine h.commandLine_ne hi hnames hhere (fun found hfound => hfresh ⟨found, hfound⟩) hline ?_
    -- The same bytes are the same text, and below the comment there is no difference.
    cases (hcontent'.symm.trans hsame).trans hcontent
    have htext := (Utf8.decode_of_encode hencode).symm.trans (Utf8.decode_of_encode hencode')
    exact List.append_cancel_left (List.append_cancel_right (List.append_cancel_right (Except.ok.inj htext)))
  · rintro ⟨hfound, hother⟩
    have hline := h.commandLine_again hhere hfound
    have hmode : s.mode ≠ .known .errorIfExists := by
      intro hmode
      obtain ⟨found, hfound⟩ := hfound
      exact s.not_found_of_write hmode h.written found hfound
    obtain ⟨t₂, hagain⟩ := (h.command_again_iff grounded hnames hhere hi hcomment hsource).2 ⟨hother, hmode,
      h.withinLimits_of_found grounded hnames hhere hfound, line, hline, rfl,
      s.balanced_of_write hmode h.written⟩
    obtain ⟨bytes', hencode', hcontent'⟩ := (h.receives_again hi hagain).contentOf
    cases hencode.symm.trans hencode'
    exact ⟨_, t₂, hagain, hcontent'.trans hcontent.symm⟩

end Wrote

end Invocation

end

/-- Calls with the comment, made twice. The first one has succeeded, and its output is no source and has not
become one. Then a second one with the same words, and as much room, writes the same bytes exactly if the
output was there before, and the settings were not read from it. Otherwise it still has the same text below
the comment, if it succeeds, and it changes nothing but the output. It succeeds if the settings are still
there and allow to overwrite, the directories that were made take the search to no limit, the command line
can be shown again, and the text passes the check where there is one; which it does when the command line
that was shown has no line breaks. -/
theorem repeated_alike_iff (words : List Text) (limits : Limits) (t t₁ : FileTree) (text : Text)
    (i : Invocation) (config : Config) (grounded : t.IsGrounded) (hnames : t.HasFileNames)
    (hhere : t.nodeAt t.workingDirectory = some .directory) (hi : Invocation.ofWords t words = .ok i)
    (hcomment : i.arguments.generationComment) (hconfig : i.settings limits t = .ok config)
    (h : command words limits t = .ok text t₁)
    (hsource : ∀ l, t₁.locate i.output = .ok l →
      ¬(Generator.ofConfig i.source config limits).TakesUp t₁ l) :
    ((∃ text₂ t₂, command words limits t₁ = .ok text₂ t₂ ∧
        t₂.contentOf i.output = t₁.contentOf i.output) ↔
      (∃ found, t.find i.output = .ok found) ∧ i.config ≠ some i.output) ∧
    (∀ text₂ t₂, command words limits t₁ = .ok text₂ t₂ → t₁.Receives t₂ i.output text₂) ∧
    ∃ s line rest, config.output = .settings s ∧ i.commandLine t = .ok line ∧
      text = Generator.commentLine line ++ "\n" ++ rest ∧
      (∀ text₂, (∃ t₂, command words limits t₁ = .ok text₂ t₂) ↔
        i.config ≠ some i.output ∧ s.mode ≠ .known .errorIfExists ∧
          (Generator.ofConfig i.source config limits).WithinLimits t₁ ∧
          ∃ line₂, i.commandLine t₁ = .ok line₂ ∧ text₂ = Generator.commentLine line₂ ++ "\n" ++ rest ∧
            (s.atomicWrite.isYes → imbalance? text₂ = none)) ∧
      (s.mode ≠ .known .errorIfExists → s.atomicWrite.isYes → line.IsUnbroken →
        ∀ line₂, i.commandLine t₁ = .ok line₂ →
          imbalance? (Generator.commentLine line₂ ++ "\n" ++ rest) = none) := by
  obtain ⟨config', s, line, rest, hwrote, rfl⟩ := (Invocation.command_eq_ok_iff_of_comment hi hcomment).1 h
  cases hconfig.symm.trans hwrote.settings
  refine ⟨hwrote.same_content_again_iff grounded hnames hhere hi hcomment hsource,
    fun text₂ t₂ hagain => hwrote.receives_again hi hagain, s, line, rest, hwrote.output, hwrote.shown, rfl,
    fun text₂ => hwrote.command_again_iff grounded hnames hhere hi hcomment hsource, ?_⟩
  intro hmode hatomic hunbroken line₂ hline
  exact hwrote.balanced_again hmode hatomic hunbroken hline

/-- A call with the comment for the one document of `emptyTableTree`, with an output at the root. -/
def commentedCall (output : Text) : List Text := ["--generation-comment", "/chests", Path.slash :: output]

/-- What the call comes down to. -/
def commentedInvocation (output : Text) : Invocation where
  arguments := { generationComment := true, positional := ["/chests", Path.slash :: output] }
  config := none
  source := ⟨.root, ["chests"]⟩
  output := ⟨.root, [output]⟩

/-- Made twice for an output that was there before, the call writes the same bytes. -/
theorem emptyTableTree_alike : ∃ text t₁ text₂ t₂,
    command (commentedCall "notes") commandLimits emptyTableTree = .ok text t₁ ∧
    command (commentedCall "notes") commandLimits t₁ = .ok text₂ t₂ ∧
    t₂.contentOf ⟨.root, ["notes"]⟩ = t₁.contentOf ⟨.root, ["notes"]⟩ := by
  obtain ⟨text, t₁, h⟩ := FileM.exists_ok_of_run'_isSome
    (x := command (commentedCall "notes") commandLimits) (t := emptyTableTree) (by decide +kernel)
  have hsource : ∀ l, t₁.locate ⟨.root, ["notes"]⟩ = .ok l → ¬(Generator.ofConfig ⟨.root, ["chests"]⟩
      { generationComment := .bool true } commandLimits).TakesUp t₁ l :=
    fun l hl => Generator.not_takesUp_of_name (by decide) (by decide) hl
  obtain ⟨text₂, t₂, hagain, hsame⟩ := (repeated_alike_iff (commentedCall "notes") commandLimits
    emptyTableTree t₁ text (commentedInvocation "notes") { generationComment := .bool true } (by decide)
    (by decide) rfl rfl rfl rfl h hsource).1.2 ⟨⟨_, rfl⟩, nofun⟩
  exact ⟨text, t₁, text₂, t₂, h, hagain, hsame⟩

/-- Made twice for a new output, it does not. -/
theorem emptyTableTree_not_alike :
    ¬∀ (words : List Text) (t t₁ : FileTree) (text : Text) (i : Invocation) (config : Config),
      t.IsGrounded → t.HasFileNames → t.nodeAt t.workingDirectory = some .directory →
      Invocation.ofWords t words = .ok i → i.arguments.generationComment → ¬i.arguments.noOverwrite →
      i.settings commandLimits t = .ok config → command words commandLimits t = .ok text t₁ →
      (∀ l, t₁.locate i.output = .ok l →
        ¬(Generator.ofConfig i.source config commandLimits).TakesUp t₁ l) →
      ∃ text₂ t₂, command words commandLimits t₁ = .ok text₂ t₂ ∧
        t₂.contentOf i.output = t₁.contentOf i.output := by
  intro hall
  obtain ⟨text, t₁, h⟩ := FileM.exists_ok_of_run'_isSome
    (x := command (commentedCall "Loot.java") commandLimits) (t := emptyTableTree) (by decide +kernel)
  have hi : Invocation.ofWords emptyTableTree (commentedCall "Loot.java") =
      .ok (commentedInvocation "Loot.java") := rfl
  have hsource : ∀ config l, t₁.locate ⟨.root, ["Loot.java"]⟩ = .ok l →
      ¬(Generator.ofConfig ⟨.root, ["chests"]⟩ config commandLimits).TakesUp t₁ l :=
    fun config l hl => Generator.not_takesUp_of_name (by decide) (by decide) hl
  have hnew : emptyTableTree.find ⟨.root, ["Loot.java"]⟩ = .error .notFound := rfl
  have hagain := hall (commentedCall "Loot.java") emptyTableTree t₁ text (commentedInvocation "Loot.java")
    { generationComment := .bool true } (by decide) (by decide) rfl hi rfl Bool.false_ne_true rfl h
    (hsource _)
  obtain ⟨config, s, line, rest, hwrote, -⟩ := (Invocation.command_eq_ok_iff_of_comment hi rfl).1 h
  obtain ⟨⟨found, hfound⟩, -⟩ :=
    (hwrote.same_content_again_iff (by decide) (by decide) rfl hi rfl (hsource config)).1 hagain
  cases hnew.symm.trans hfound

end LootTables
