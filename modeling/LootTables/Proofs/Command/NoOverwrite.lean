import LootTables.Proofs.Command.Invocation
import LootTables.Proofs.Output.AllOrNothing

/-!
# Runs that must not overwrite

Calls of the command that all carry the switch against overwriting never change a file that is there,
whatever their settings say, from whatever directories they are made, and whether they succeed or fail
(`files_kept`). The switch is put over the settings last, so the output is always written where nothing
exists yet, and the path of an output is resolved, so that it is its own location. One run is described
by `Call.run_ends`; a list of them by induction.
-/

namespace LootTables

/-! ### Trees with more files -/

namespace FileTree

variable {t t' : FileTree} {p : Path} {l : Location} {text : Text}

/-- A new file lies where its path leads, and the directories that were made for it on the way. -/
theorem IsWritten.addsAlong (h : t.IsWritten t' p text) (hp : p.IsResolved)
    (habsent : t.nodeAt p.parts = none) : t.AddsAlong t' p := by
  obtain ⟨bytes, l, -, hl, hfile, hother⟩ := h
  obtain ⟨-, rfl, -⟩ := (locate_resolved_iff hp).1 hl
  refine ⟨(start_of_isResolved t' hp).trans (start_of_isResolved t hp).symm, fun k hk => ?_,
    fun k hthere => ?_⟩
  · have hne : k ≠ p.parts := by
      rintro rfl
      cases habsent.symm.trans hk
    rcases hother k hne with hsame | hnew
    · exact hsame.trans hk
    · exact hnew.directory
  · by_cases hk : k = p.parts
    · subst hk
      exact .inr ⟨p.parts, List.prefix_rfl, hl⟩
    · rcases hother k hk with hsame | hnew
      · exact .inl (hsame ▸ hthere)
      · obtain ⟨names, hnames, hl⟩ := hnew.onTheWay
        exact .inr ⟨names, hnames.trans (List.dropLast_prefix _), hl⟩

/-- The tree `t'` has one more file than `t`. -/
structure GainsFile (t t' : FileTree) (l : Location) (bytes : Bytes) : Prop where
  absent : t.nodeAt l = none
  file : t'.nodeAt l = some (.file bytes)
  other : ∀ k, k ≠ l → ∀ b, t'.nodeAt k = some (.file b) ↔ t.nodeAt k = some (.file b)

/-- All files of `t` are in `t'` as they are. -/
def KeepsFiles (t t' : FileTree) : Prop :=
  ∀ l bytes, t.nodeAt l = some (.file bytes) → t'.nodeAt l = some (.file bytes)

theorem SameFiles.keepsFiles (h : t.SameFiles t') : t.KeepsFiles t' := fun l bytes => (h l bytes).2

theorem KeepsFiles.trans {t'' : FileTree} (h : t.KeepsFiles t') (h' : t'.KeepsFiles t'') :
    t.KeepsFiles t'' :=
  fun l bytes hfile => h' l bytes (h l bytes hfile)

theorem GainsFile.keepsFiles {bytes : Bytes} (h : t.GainsFile t' l bytes) : t.KeepsFiles t' := by
  intro k b hfile
  refine (h.other k ?_ b).2 hfile
  rintro rfl
  cases h.absent.symm.trans hfile

end FileTree

/-! ### One run -/

section

variable {t : FileTree} {p : Path} {text : Text}

namespace Invocation

variable {i : Invocation} {config : Config} {limits : Limits} {words : List Text}

/-- The switch wins over whatever the settings say. -/
theorem output_of_settings (hno : i.arguments.noOverwrite) (h : i.settings limits t = .ok config) :
    ∃ s : OutputSettings, config.output = .settings s ∧ s.mode = .known .errorIfExists := by
  obtain ⟨stored, -, h⟩ := bind_eq_ok_iff.1 h
  dsimp only at h
  rw [if_pos hno] at h
  have hset := mapError_eq_ok_iff.1 h
  unfold Config.setMode Config.changeOutput at hset
  split at hset
  · next s _ =>
    cases hset
    exact ⟨{ s with mode := .known .errorIfExists }, rfl, rfl⟩
  · cases hset
  · cases hset

theorem run_ends (hno : i.arguments.noOverwrite) (t : FileTree) :
    (i.run limits).Ends t (fun text t' => (∀ found, t.find i.output ≠ .ok found) ∧ t.IsWritten t' i.output text)
      fun _ t' => t.GrowsTowards t' i.output.parent := by
  unfold run
  refine FileM.ends_get ?_
  split
  · exact FileM.ends_throw (.refl t _)
  · next config hconfig =>
    obtain ⟨s, houtput, hmode⟩ := output_of_settings hno hconfig
    have hends := (Generator.ofConfig i.source config limits).write_ends houtput (.inl hmode) i.output
      (i.commandLine t) t
    rw [FileM.ends_iff] at hends ⊢
    refine ⟨fun text t' h => ?_, hends.2⟩
    obtain ⟨-, hwritten⟩ := hends.1 text t' h
    obtain ⟨s', hs, -, hwrite⟩ := Generator.write_eq_ok_iff.1 h
    cases houtput.symm.trans hs
    exact ⟨s.not_found_of_write hmode hwrite, hwritten⟩

end Invocation

end

/-- A call of the command: the directory it is made from, its words, and what it has room for. -/
structure Call where
  here : Location
  words : List Text
  limits : Limits := commandLimits

namespace Call

/-- The call carries the switch against overwriting, if its words are a command line at all. -/
def ForbidsOverwriting (c : Call) : Prop :=
  ∀ a, Arguments.ofWords c.words = .ok a → a.noOverwrite

/-- The switch may stand anywhere among the words, but not as the value of an option, nor after the
word that ends the options. -/
theorem forbidsOverwriting_of_switch {here : Location} {before rest : List Text} {limits : Limits}
    {a : Arguments} (hbefore : Arguments.ofWords before = .ok a) (hend : endOfOptions ∉ before) :
    (⟨here, before ++ (CommandOption.switch .noOverwrite).longName :: rest, limits⟩ :
      Call).ForbidsOverwriting := by
  intro b hb
  have hwords : readWords ⟨a, none⟩ ((CommandOption.switch .noOverwrite).longName :: rest) = .ok b :=
    (readWords_append hbefore hend).symm.trans hb
  have hswitch : readWords ⟨a, none⟩ ((CommandOption.switch .noOverwrite).longName :: rest) =
      readWords ⟨a.turnOn .noOverwrite, none⟩ rest := rfl
  exact readWords_noOverwrite (hswitch.symm.trans hwords) rfl

/-- The tree as the call finds it. -/
def tree (c : Call) (t : FileTree) : FileTree := { t with workingDirectory := c.here }

/-- The result of a call. -/
def run (c : Call) (t : FileTree) : EStateM.Result CommandError FileTree Text :=
  command c.words c.limits (c.tree t)

/-- The tree that a call leaves, whether it succeeds or fails. -/
def after (c : Call) (t : FileTree) : FileTree :=
  match c.run t with
  | .ok _ t' | .error _ t' => t'

variable {c : Call} {t : FileTree}

/-- One run: it writes a new file or leaves all files as they are. -/
theorem run_ends (h : c.ForbidsOverwriting) (grounded : t.IsGrounded) :
    (command c.words c.limits).Ends (c.tree t)
      (fun text t' => t'.IsGrounded ∧ ∃ i bytes, Invocation.ofWords (c.tree t) c.words = .ok i ∧
        Utf8.encode text = .ok bytes ∧ t.GainsFile t' i.output.parts bytes)
      fun _ t' => t'.IsGrounded ∧ t.SameFiles t' := by
  have groundedHere : (c.tree t).IsGrounded := grounded
  have hstart : ∀ {p : Path}, p.IsResolved → (c.tree t).nodeAt ((c.tree t).start p) = some .directory := by
    intro p hp
    rw [FileTree.start_of_isResolved _ hp]
    exact FileTree.nodeAt_root _
  unfold command
  refine FileM.ends_get ?_
  split
  · exact FileM.ends_throw ⟨groundedHere, .refl t⟩
  · next i hi =>
    obtain ⟨harguments, hresolved⟩ := Invocation.of_ofWords hi
    have hends : (i.run c.limits).Ends (c.tree t) _ _ := i.run_ends (h _ harguments) (c.tree t)
    refine .adaptExcept (hends.mono ?_ ?_)
    · rintro text t' ⟨hfind, hwritten⟩
      obtain ⟨bytes, l, hencode, hl, hfile, hother⟩ := id hwritten
      have habsent : (c.tree t).nodeAt l = none :=
        FileTree.nodeAt_of_find groundedHere hresolved hl hfind
      obtain ⟨-, rfl, -⟩ := (FileTree.locate_resolved_iff hresolved).1 hl
      have hgains : (c.tree t).GainsFile t' i.output.parts bytes :=
        ⟨habsent, hfile, fun k hk => FileTree.file_iff (hother k hk)⟩
      exact ⟨(hwritten.addsAlong hresolved habsent).isGrounded groundedHere (hstart hresolved), i, bytes, hi,
        hencode, hgains.absent, hgains.file, hgains.other⟩
    · rintro e t' hgrows
      exact ⟨hgrows.addsAlong.isGrounded groundedHere (hstart hresolved.parent), hgrows.sameFiles⟩

theorem run_ok (h : c.ForbidsOverwriting) (grounded : t.IsGrounded) {text : Text} {t' : FileTree}
    (hrun : c.run t = .ok text t') :
    ∃ i bytes, Invocation.ofWords (c.tree t) c.words = .ok i ∧ Utf8.encode text = .ok bytes ∧
      t.GainsFile t' i.output.parts bytes :=
  ((FileM.ends_iff.1 (run_ends h grounded)).1 text t' hrun).2

theorem run_error (h : c.ForbidsOverwriting) (grounded : t.IsGrounded) {e : CommandError}
    {t' : FileTree} (hrun : c.run t = .error e t') : t.SameFiles t' :=
  ((FileM.ends_iff.1 (run_ends h grounded)).2 e t' hrun).2

theorem after_keepsFiles (h : c.ForbidsOverwriting) (grounded : t.IsGrounded) :
    (c.after t).IsGrounded ∧ t.KeepsFiles (c.after t) := by
  obtain ⟨hok, herror⟩ := FileM.ends_iff.1 (run_ends h grounded)
  unfold after
  cases hrun : c.run t with
  | ok text t' =>
    obtain ⟨hgrounded, i, bytes, -, -, hgains⟩ := hok text t' hrun
    exact ⟨hgrounded, hgains.keepsFiles⟩
  | error e t' =>
    obtain ⟨hgrounded, hsame⟩ := herror e t' hrun
    exact ⟨hgrounded, hsame.keepsFiles⟩

end Call

/-! ### Many runs -/

namespace FileTree

/-- The tree that calls leave, made one after the other. -/
def after (t : FileTree) (calls : List Call) : FileTree := calls.foldl (fun t c => c.after t) t

variable {t : FileTree} {calls : List Call}

theorem after_append (earlier later : List Call) :
    t.after (earlier ++ later) = (t.after earlier).after later := List.foldl_append

theorem after_keepsFiles (h : ∀ c ∈ calls, c.ForbidsOverwriting) (grounded : t.IsGrounded) :
    (t.after calls).IsGrounded ∧ t.KeepsFiles (t.after calls) := by
  induction calls generalizing t with
  | nil => exact ⟨grounded, fun _ _ hfile => hfile⟩
  | cons c calls ih =>
    obtain ⟨hc, hcalls⟩ := List.forall_mem_cons.1 h
    obtain ⟨hgrounded, hkeeps⟩ := Call.after_keepsFiles hc grounded
    obtain ⟨hend, hlater⟩ := ih hcalls hgrounded
    exact ⟨hend, hkeeps.trans hlater⟩

end FileTree

/-- Calls that all carry the switch against overwriting, made one after the other. At any moment, the
files that are there keep their bytes through all calls to come. Each call either fails, and then all
files are as before, or it writes its text at the place of its output, where nothing was before, and
nowhere else, and that file keeps these bytes to the end. -/
theorem files_kept (t : FileTree) (grounded : t.IsGrounded) (calls : List Call)
    (h : ∀ c ∈ calls, c.ForbidsOverwriting) :
    (∀ earlier later, calls = earlier ++ later → (t.after earlier).KeepsFiles (t.after calls)) ∧
    ∀ earlier c later, calls = earlier ++ c :: later →
      (∀ e t', c.run (t.after earlier) = .error e t' → (t.after earlier).SameFiles t') ∧
      ∀ text t', c.run (t.after earlier) = .ok text t' → ∃ i bytes,
        Invocation.ofWords (c.tree (t.after earlier)) c.words = .ok i ∧
        Utf8.encode text = .ok bytes ∧ (t.after earlier).GainsFile t' i.output.parts bytes ∧
        (t.after calls).nodeAt i.output.parts = some (.file bytes) := by
  have hkept : ∀ earlier later, calls = earlier ++ later →
      (t.after earlier).IsGrounded ∧ (t.after earlier).KeepsFiles (t.after calls) := by
    rintro earlier later rfl
    have hearlier := FileTree.after_keepsFiles (fun c hc => h c (List.mem_append_left later hc)) grounded
    rw [FileTree.after_append]
    exact ⟨hearlier.1,
      (FileTree.after_keepsFiles (fun c hc => h c (List.mem_append_right earlier hc)) hearlier.1).2⟩
  refine ⟨fun earlier later heq => (hkept earlier later heq).2, fun earlier c later heq => ?_⟩
  have hc : c.ForbidsOverwriting := h c (by simp [heq])
  have hgrounded := (hkept earlier (c :: later) heq).1
  refine ⟨fun e t' hrun => Call.run_error hc hgrounded hrun, fun text t' hrun => ?_⟩
  obtain ⟨i, bytes, hi, hencode, hgains⟩ := Call.run_ok hc hgrounded hrun
  -- What the call leaves is what the later ones start from.
  have hnext : t.after (earlier ++ [c]) = t' := by
    rw [FileTree.after_append]
    change c.after (t.after earlier) = t'
    unfold Call.after
    rw [hrun]
  have hlater := (hkept (earlier ++ [c]) later (by simp [heq])).2
  rw [hnext] at hlater
  exact ⟨i, bytes, hi, hencode, hgains, hlater _ _ hgains.file⟩

/-- A call that writes the tables of an empty directory where nothing exists yet. -/
def storeCall : Call where
  here := []
  words := ["--no-overwrite", "/chests", "/Loot.java"]

/-- Made twice, it writes once. -/
theorem bareTree_kept :
    (∃ text t' bytes, storeCall.run bareTree = .ok text t' ∧ Utf8.encode text = .ok bytes ∧
      (bareTree.after [storeCall, storeCall]).nodeAt ["Loot.java"] = some (.file bytes)) ∧
    (bareTree.after [storeCall, storeCall]).nodeAt ["notes"] = some (.file [0x61]) := by
  have hforbids : ∀ c ∈ [storeCall, storeCall], c.ForbidsOverwriting := by
    have hcall : storeCall.ForbidsOverwriting :=
      Call.forbidsOverwriting_of_switch rfl (List.not_mem_nil : endOfOptions ∉ ([] : List Text))
    simpa using hcall
  obtain ⟨hkeeps, hcalls⟩ := files_kept bareTree (by decide) [storeCall, storeCall] hforbids
  refine ⟨?_, hkeeps [] [storeCall, storeCall] rfl ["notes"] [0x61] rfl⟩
  obtain ⟨text, t', hrun⟩ := FileM.exists_ok_of_run'_isSome (x := command storeCall.words storeCall.limits)
    (t := storeCall.tree bareTree) (by decide +kernel)
  obtain ⟨i, bytes, hi, hencode, -, hfile⟩ := (hcalls [] storeCall [storeCall] rfl).2 text t' hrun
  have hplace : (Invocation.ofWords (storeCall.tree bareTree) storeCall.words).toOption.map
      (fun i => i.output.parts) = some (["Loot.java"] : List Text) := by decide +kernel
  change Invocation.ofWords (storeCall.tree bareTree) storeCall.words = .ok i at hi
  rw [hi] at hplace
  have hparts : i.output.parts = ["Loot.java"] := Option.some.inj hplace
  rw [hparts] at hfile
  exact ⟨text, t', bytes, hrun, hencode, hfile⟩

end LootTables
