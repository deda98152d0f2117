import LootTables.Proofs.Output.Ways

/-!
# All or nothing

An output that is written by way of a temporary file is written completely or not at all
(`writeAtomic_ends`, `writeNew_ends`): what an atomic write does in the tree in which the directory of
the output is there is known (`writeAtomic_result`), and until then nothing but directories is new.

A whole run has generated its text before it changes anything, so the same holds of it.
-/

namespace LootTables

namespace FileTree

/-! ### The output -/

/-- The file to which `p` leads in `t'` holds the encoded text, and everywhere else `t'` holds what
`t` holds, or a new directory above that file. -/
def IsWritten (t t' : FileTree) (p : Path) (text : Text) : Prop :=
  ∃ bytes l, Utf8.encode text = .ok bytes ∧ t'.locate p = .ok l ∧
    t'.nodeAt l = some (.file bytes) ∧
    ∀ k, k ≠ l → t'.nodeAt k = t.nodeAt k ∨ t.IsNewDirectory t' p.parent k

/-- A file in a tree with new directories above it. -/
theorem GrowsTowards.isWritten {t t' t'' : FileTree} {p : Path} {text : Text}
    (h : t.GrowsTowards t' p.parent) (hreceives : t'.Receives t'' p text) : t.IsWritten t'' p text := by
  obtain ⟨bytes, l, hencode, hl, hplace, hput⟩ := hreceives
  have hroot : l ≠ [] := ne_root hplace
  have keeps : t'.KeepsDirectories t'' := (keepsDirectories_put hplace).trans hput.keepsDirectories
  refine ⟨bytes, l, hencode, keeps.locate hl, ?_, fun k hk => ?_⟩
  · rw [hput.node l, nodeAt_put t' _ hroot, if_pos rfl]
  · rw [hput.node k, nodeAt_put t' _ hroot, if_neg hk]
    exact (h.node k).imp_right fun hnew => hnew.of_keepsDirectories keeps

end FileTree

/-! ### Writing -/

theorem writeAtomic_unchecked_ends (p : Path) (content : Text) (t : FileTree) :
    (writeAtomic p content false).Ends t (fun _ t' => t.IsWritten t' p content) fun _ t' =>
      t.GrowsTowards t' p.parent := by
  obtain ⟨hmakes, hfails⟩ := FileM.ends_iff.1 (makeParent_ends p t)
  cases hmake : makeParent p t with
  | ok _ t₁ =>
    have hgrows := hmakes () t₁ hmake
    exact (writeAtomic_result hmake).mono (fun _ _ h => hgrows.isWritten h.2)
      fun _ _ h => hgrows.congr h.2
  | error e t₁ =>
    unfold FileM.Ends
    rw [writeAtomic_of_makeParent_error hmake]
    exact hfails e t₁ hmake

/-- An atomic write ends with the whole text at the output, or with all files as they were. -/
theorem writeAtomic_ends (p : Path) (content : Text) (checked : Bool) (t : FileTree) :
    (writeAtomic p content checked).Ends t (fun _ t' => t.IsWritten t' p content) fun _ t' =>
      t.GrowsTowards t' p.parent := by
  cases checked with
  | false => exact writeAtomic_unchecked_ends p content t
  | true =>
    have hunchecked := writeAtomic_unchecked_ends p content t
    unfold FileM.Ends at hunchecked ⊢
    cases hbalance : imbalance? content with
    | none =>
      rw [writeAtomic_of_balanced hbalance]
      exact hunchecked
    | some i =>
      rw [writeAtomic_of_unbalanced hbalance]
      exact .refl t p.parent

theorem writeNew_ends (p : Path) (content : Text) (checked : Bool) (t : FileTree) :
    (writeNew p content checked).Ends t (fun _ t' => t.IsWritten t' p content) fun _ t' =>
      t.GrowsTowards t' p.parent := by
  unfold writeNew
  refine FileM.ends_get ?_
  split
  · exact FileM.ends_throw (.refl t p.parent)
  · exact FileM.ends_throw (.refl t p.parent)
  · exact writeAtomic_ends p content checked t

theorem OutputSettings.write_ends (s : OutputSettings)
    (hs : s.mode = .known .errorIfExists ∨ s.atomicWrite.isYes) (output : Path) (content : Text)
    (t : FileTree) :
    (s.write output content).Ends t (fun _ t' => t.IsWritten t' output content) fun _ t' =>
      t.GrowsTowards t' output.parent := by
  unfold OutputSettings.write
  split
  · exact writeNew_ends output content true t
  · next hmode =>
    rw [if_pos (hs.resolve_left hmode)]
    exact writeAtomic_ends output content true t

/-! ### Whole runs -/

theorem Generator.write_ends (g : Generator) {s : OutputSettings}
    (houtput : g.config.output = .settings s)
    (hs : s.mode = .known .errorIfExists ∨ s.atomicWrite.isYes) (output : Path)
    (commandLine : Except FileError Text) (t : FileTree) :
    (g.write output commandLine).Ends t
      (fun content t' => g.generate t commandLine = .ok content ∧ t.IsWritten t' output content)
      fun _ t' => t.GrowsTowards t' output.parent := by
  unfold Generator.write
  refine FileM.ends_get ?_
  split
  · exact FileM.ends_throw (.refl t output.parent)
  · next content hgenerate =>
    rw [houtput]
    have hwrite := s.write_ends hs output content t
    exact (FileM.Ends.adaptExcept hwrite).bind fun _ _ h => FileM.ends_pure ⟨hgenerate, h⟩

/-- A run that writes atomically, or only where nothing exists yet, either returns the generated text,
and then its encoding is what the output holds and every other file is as before, or fails, and then
all files are as before. Besides, there may be new directories above the output; after a failure they
hold nothing but one another. -/
theorem generate_and_write_all_or_nothing (g : Generator) (s : OutputSettings)
    (houtput : g.config.output = .settings s)
    (hs : s.mode = .known .errorIfExists ∨ s.atomicWrite.isYes) (output : Path)
    (commandLine : Except FileError Text) (t : FileTree) :
    (∀ content t', g.write output commandLine t = .ok content t' →
      ∃ bytes l, g.generate t commandLine = .ok content ∧ Utf8.encode content = .ok bytes ∧
        t'.locate output = .ok l ∧ t'.contentOf output = .ok bytes ∧
        (∀ k, k ≠ l → ∀ b, t'.nodeAt k = some (.file b) ↔ t.nodeAt k = some (.file b)) ∧
        ∀ k, k ≠ l → t'.nodeAt k = t.nodeAt k ∨ t.IsNewDirectory t' output.parent k) ∧
    ∀ e t', g.write output commandLine t = .error e t' →
      (∀ k b, t'.nodeAt k = some (.file b) ↔ t.nodeAt k = some (.file b)) ∧
      (∀ k, t'.nodeAt k = t.nodeAt k ∨ t.IsNewDirectory t' output.parent k) ∧
      (t.IsGrounded → ∀ l names, t.IsNewDirectory t' output.parent l →
        t'.nodeAt (l ++ names) ≠ none → t.IsNewDirectory t' output.parent (l ++ names)) := by
  obtain ⟨hok, herror⟩ := FileM.ends_iff.1 (g.write_ends houtput hs output commandLine t)
  constructor
  · intro content t' h
    obtain ⟨hgenerate, bytes, l, hencode, hl, hfile, hother⟩ := hok content t' h
    have hcontent : t'.contentOf output = .ok bytes :=
      FileTree.contentOf_eq_ok_iff.2 ⟨l, hl, hfile⟩
    exact ⟨bytes, l, hgenerate, hencode, hl, hcontent,
      fun k hk => FileTree.file_iff (hother k hk), hother⟩
  · intro e t' h
    have hgrows := herror e t' h
    exact ⟨fun k => FileTree.file_iff (hgrows.node k), hgrows.node,
      fun grounded _ _ hnew => hnew.below hgrows grounded⟩

/-- An empty source directory next to a file. -/
def bareTree : FileTree :=
  ((FileTree.empty []).put ["chests"] .directory).put ["notes"] (.file [0x61])

/-- The generator for this directory with all settings left at their defaults. -/
def bareGenerator : Generator := .ofConfig ⟨.root, ["chests"]⟩ {}

/-- The output goes into a directory that is missing, but not into a file. -/
theorem bareGenerator_writes :
    (∃ content t',
      bareGenerator.write ⟨.root, ["java", "Loot.java"]⟩ (.ok []) bareTree = .ok content t' ∧
      ∃ bytes, Utf8.encode content = .ok bytes ∧
        t'.contentOf ⟨.root, ["java", "Loot.java"]⟩ = .ok bytes) ∧
    ∃ e t', bareGenerator.write ⟨.root, ["notes", "Loot.java"]⟩ (.ok []) bareTree = .error e t' ∧
      ∀ k b, t'.nodeAt k = some (.file b) ↔ bareTree.nodeAt k = some (.file b) := by
  constructor
  · obtain ⟨content, t', h⟩ := FileM.exists_ok_of_run'_isSome
      (x := bareGenerator.write ⟨.root, ["java", "Loot.java"]⟩ (.ok [])) (t := bareTree)
      (by decide +kernel)
    obtain ⟨bytes, l, -, hencode, -, hcontent, -⟩ :=
      (generate_and_write_all_or_nothing bareGenerator {} rfl (.inr rfl) _ _ _).1 content t' h
    exact ⟨content, t', h, bytes, hencode, hcontent⟩
  · obtain ⟨e, t', h⟩ := FileM.exists_error_of_run'_isNone
      (x := bareGenerator.write ⟨.root, ["notes", "Loot.java"]⟩ (.ok [])) (t := bareTree)
      (by decide +kernel)
    exact ⟨e, t', h,
      ((generate_and_write_all_or_nothing bareGenerator {} rfl (.inr rfl) _ _ _).2 e t' h).1⟩

end LootTables
