import LootTables.Generator
import LootTables.Proofs.Files.Directories
import LootTables.Proofs.Files.Temporary

/-!
# Ways of writing

What each way of writing does once the directory of the output is there. The plain way fills the file
to which the path leads. The atomic way makes a temporary file where nothing was, so that until it is
moved the tree is the one before with one more file (`AddsFile`), which is a tree with the same
directories, in which all walks arrive where they did. Moving it leaves the tree before with another
file at the output, and discarding it the tree before. The careful way is the atomic one, where nothing is
found at the output (`writeNew_eq_ok_iff`).

When a way of writing fails is known beforehand: `atomicRefusal?` and `plainRefusal?` look at the tree
and at the text only, and `writeAtomic_result` and `writePlain_result` say that a write succeeds exactly
if they have nothing to say, and otherwise fails with what they say.
-/

namespace LootTables

namespace FileTree

/-! ### One more file -/

/-- The tree `t'` is `t` with one more file at `l`, where nothing is in `t`. -/
structure AddsFile (t t' : FileTree) (l : Location) (content : Bytes) : Prop where
  workingDirectory : t'.workingDirectory = t.workingDirectory
  absent : t.nodeAt l = none
  file : t'.nodeAt l = some (.file content)
  node : ∀ k, k ≠ l → t'.nodeAt k = t.nodeAt k

variable {t t' : FileTree} {p : Path} {l : Location} {content : Bytes}

theorem addsFile_put (h : t.nodeAt l = none) : t.AddsFile (t.put l (.file content)) l content := by
  have hroot : l ≠ [] := ne_root (t := t) (by simp [h])
  refine ⟨rfl, h, ?_, fun k hk => ?_⟩
  · rw [nodeAt_put t _ hroot, if_pos rfl]
  · rw [nodeAt_put t _ hroot, if_neg hk]

namespace AddsFile

theorem differAt (h : t.AddsFile t' l content) : t.DifferAt t' l :=
  ⟨h.workingDirectory, by simp [h.absent], by simp [h.file], h.node⟩

theorem keepsDirectories (h : t.AddsFile t' l content) : t.KeepsDirectories t' :=
  h.differAt.keepsDirectories

/-- The file may get another content. -/
theorem put (h : t.AddsFile t' l content) (content' : Bytes) :
    t.AddsFile (t'.put l (.file content')) l content' := by
  have hroot : l ≠ [] := ne_root (t := t) (by simp [h.absent])
  refine ⟨h.workingDirectory, h.absent, ?_, fun k hk => ?_⟩
  · rw [nodeAt_put t' _ hroot, if_pos rfl]
  · rw [nodeAt_put t' _ hroot, if_neg hk, h.node k hk]

/-- Without the file, the tree is the one before. -/
theorem erase (h : t.AddsFile t' l content) : t.SameNodes (t'.erase l) := by
  have hroot : l ≠ [] := ne_root (t := t) (by simp [h.absent])
  refine ⟨h.workingDirectory, fun k => ?_⟩
  rw [nodeAt_erase t' hroot]
  split
  · next hk => rw [hk, h.absent]
  · next hk => exact h.node k hk

end AddsFile

/-! ### Refusals -/

/-- The path leads to a directory. -/
def LeadsToDirectory (t : FileTree) (p : Path) : Prop :=
  (t.find p).toOption.map Prod.snd = some .directory

instance (t : FileTree) (p : Path) : Decidable (t.LeadsToDirectory p) :=
  inferInstanceAs (Decidable (_ = _))

theorem leadsToDirectory_iff : t.LeadsToDirectory p ↔ ∃ l, t.find p = .ok (l, .directory) := by
  unfold LeadsToDirectory
  cases h : t.find p with
  | error fault => simp [Except.toOption]
  | ok found =>
    obtain ⟨l, node⟩ := found
    simp [Except.toOption]

theorem leadsToDirectory_iff_of_locate (h : t.locate p = .ok l) :
    t.LeadsToDirectory p ↔ t.nodeAt l = some .directory := by
  rw [leadsToDirectory_iff]
  constructor
  · rintro ⟨k, hk⟩
    obtain ⟨hlocate, hdirectory⟩ := find_eq_ok_iff.1 hk
    cases h.symm.trans hlocate
    exact hdirectory
  · exact fun hdirectory => ⟨l, find_eq_ok_iff.2 ⟨h, hdirectory⟩⟩

/-- Why a temporary file does not take the place of `p`, if it does not. -/
def replaceRefusal? (t : FileTree) (temporary p : Path) (text : Text) : Option WriteError :=
  match Utf8.encode text with
  | .error e => some (.encoding e)
  | .ok _ =>
    if p.EndsInName then
      if t.LeadsToDirectory p then some (.file ⟨.isDirectory, temporary, some p⟩) else none
    else some (.file ⟨.busy, temporary, some p⟩)

/-- Why an atomic write fails, if it does. -/
def atomicRefusal? (t : FileTree) (p : Path) (text : Text) : Option WriteError :=
  let temporary := t.temporaryPath p t.entries.length 0
  match t.locate temporary with
  | .error fault => some (.file ⟨fault, temporary, none⟩)
  | .ok _ => t.replaceRefusal? temporary p text

/-- Why a plain write fails, if it does. -/
def plainRefusal? (t : FileTree) (p : Path) (text : Text) : Option WriteError :=
  match t.locate p with
  | .error fault => some (.file ⟨fault, p, none⟩)
  | .ok _ =>
    if t.LeadsToDirectory p then some (.file ⟨.isDirectory, p, none⟩)
    else
      match Utf8.encode text with
      | .error e => some (.encoding e)
      | .ok _ => none

/-- The tree with an empty file where the path leads; the tree itself where there cannot be a file. -/
def emptied (t : FileTree) (p : Path) : FileTree := (t.truncateFile p).toOption.getD t

/-- The tree `t'` is `t` with the encoded text in the file to which `p` leads. -/
def Receives (t t' : FileTree) (p : Path) (text : Text) : Prop :=
  ∃ bytes l, Utf8.encode text = .ok bytes ∧ t.locate p = .ok l ∧ t.nodeAt l ≠ some .directory ∧
    (t.put l (.file bytes)).SameNodes t'

end FileTree

section

variable {t t' t₁ : FileTree} {p temporary : Path} {l : Location} {text : Text} {e : WriteError}

/-! ### The directory of the output -/

theorem makeParent_ends (p : Path) (t : FileTree) :
    (makeParent p).Ends t (fun _ t' => t.GrowsTowards t' p.parent) fun _ t' =>
      t.GrowsTowards t' p.parent :=
  (makeDirectories_ends t p.parent).adaptExcept

theorem find_parent_of_makeParent (h : makeParent p t = .ok () t₁) :
    ∃ l, t₁.find p.parent = .ok (l, .directory) := by
  have hends : (makeParent p).Ends t (fun _ t' => ∃ l, t'.find p.parent = .ok (l, .directory))
      fun _ _ => True := (makeDirectories_directory t p.parent).adaptExcept
  exact (FileM.ends_iff.1 hends).1 () t₁ h

/-- A directory that is there needs not be made. -/
theorem makeParent_of_directory (h : t.find p.parent = .ok (l, .directory)) :
    makeParent p t = .ok () t := by
  have hends : (makeParent p).Ends t (fun _ t' => t' = t) fun _ _ => False :=
    (makeDirectories_of_directory h).adaptExcept
  unfold FileM.Ends at hends
  cases hmake : makeParent p t with
  | ok _ t' =>
    rw [hmake] at hends
    rw [hends]
  | error e t' =>
    rw [hmake] at hends
    exact hends.elim

/-! ### The atomic way -/

/-- Discarding the temporary file succeeds and leaves the tree before it. -/
theorem discard_ends {bytes : Bytes} (h : t.AddsFile t' l bytes) (hl : t.locate temporary = .ok l) :
    (discard temporary).Ends t' (fun _ t'' => t.SameNodes t'') fun _ _ => False := by
  have hremove : t'.removeFile temporary = .ok (t'.erase l) :=
    FileTree.removeFile_eq_ok_iff.2 ⟨l, bytes, h.keepsDirectories.locate hl, h.file, rfl⟩
  have hperform : (performForWriting [.remove temporary]).Ends t' (fun _ t'' => t.SameNodes t'')
      fun _ _ => False := .adaptExcept (ends_perform_of_ok hremove (ends_perform_nil h.erase))
  exact hperform.tryCatch fun _ _ hfalse => hfalse.elim

/-- Either the temporary file takes the place of the output, or it is still there. -/
theorem replaceWith_ends (h : t.AddsFile t' l []) (hl : t.locate temporary = .ok l)
    {new : Location} (hnew : t.locate p = .ok new) :
    (replaceWith temporary p text).Ends t'
      (fun _ t'' => t.replaceRefusal? temporary p text = none ∧ t.Receives t'' p text)
      fun e t'' => t.replaceRefusal? temporary p text = some e ∧ ∃ bytes, t.AddsFile t'' l bytes := by
  unfold replaceWith FileTree.replaceRefusal?
  split
  · next bytes hencode =>
    rw [hencode]
    dsimp only
    -- Both actions find the temporary file where it was made.
    have hfilled : t.AddsFile (t'.put l (.file ([] ++ bytes))) l bytes := h.put bytes
    have happend : t'.appendFile temporary bytes = .ok (t'.put l (.file ([] ++ bytes))) :=
      FileTree.appendFile_eq_ok_iff.2 ⟨l, [], h.keepsDirectories.locate hl, h.file, rfl⟩
    have hmove := FileTree.renameFile_of_find
      (FileTree.find_eq_ok_iff.2 ⟨hfilled.keepsDirectories.locate hl, hfilled.file⟩)
      (hfilled.keepsDirectories.locate hnew)
    have hplace : (t'.put l (.file ([] ++ bytes))).nodeAt new = some .directory ↔
        t.LeadsToDirectory p := by
      rw [FileTree.leadsToDirectory_iff_of_locate hnew]
      exact ⟨hfilled.differAt.symm.keepsDirectories.directory new, hfilled.keepsDirectories.directory new⟩
    rw [if_congr hplace rfl rfl] at hmove
    refine .adaptExcept (ends_perform_of_ok happend ?_)
    split_ifs at hmove ⊢ with hname hdirectory
    · exact ends_perform_of_error hmove ⟨rfl, bytes, hfilled⟩
    · have hfree := mt (FileTree.leadsToDirectory_iff_of_locate hnew).2 hdirectory
      exact ends_perform_of_ok hmove (ends_perform_nil
        ⟨rfl, bytes, new, hencode, hnew, hfree, hfilled.erase.put (FileTree.ne_root hfree)⟩)
    · exact ends_perform_of_error hmove ⟨rfl, bytes, hfilled⟩
  · next e hencode =>
    rw [hencode]
    exact FileM.ends_throw ⟨rfl, [], h⟩

theorem writeAtomic_of_makeParent_error (h : makeParent p t = .error e t₁) :
    writeAtomic p text false t = .error e t₁ := by
  unfold writeAtomic
  dsimp only
  rw [if_neg Bool.false_ne_true]
  exact FileM.bind_of_error h

/-- How an atomic write ends that does not check the text, once the directory of the output is made. -/
theorem writeAtomic_result (h : makeParent p t = .ok () t₁) :
    (writeAtomic p text false).Ends t
      (fun _ t' => t₁.atomicRefusal? p text = none ∧ t₁.Receives t' p text)
      fun e t' => t₁.atomicRefusal? p text = some e ∧ t₁.SameNodes t' := by
  obtain ⟨k, hparent⟩ := find_parent_of_makeParent h
  unfold writeAtomic
  dsimp only
  rw [if_neg Bool.false_ne_true]
  refine .bind_of_ok h (FileM.ends_get ?_)
  unfold FileTree.atomicRefusal?
  dsimp only
  have hmissing := @FileTree.locate_temporaryPath_eq_error t₁ p k
  have hfree := @FileTree.nodeAt_temporaryPath t₁ p
  generalize t₁.temporaryPath p t₁.entries.length 0 = temporary at hmissing hfree
  cases hl : t₁.locate temporary with
  | error fault =>
    have hcreate : (performForWriting [.create temporary]).Ends t₁ (fun _ _ => False)
        fun e t' => some (WriteError.file ⟨fault, temporary, none⟩) = some e ∧ t₁.SameNodes t' :=
      .adaptExcept (ends_perform_of_error (FileTree.createFile_of_locate_error hl) ⟨rfl, .refl t₁⟩)
    exact hcreate.bind fun _ _ hfalse => hfalse.elim
  | ok l =>
    -- A place for the temporary file leaves one for the output.
    have hnew : ∃ new, t₁.locate p = .ok new := by
      cases hp : t₁.locate p with
      | ok new => exact ⟨new, rfl⟩
      | error fault => cases hl.symm.trans (hmissing hparent hp)
    obtain ⟨new, hnew⟩ := hnew
    have hmade := FileTree.createFile_eq_ok_iff.2 ⟨l, hl, hfree hl, rfl⟩
    have hcreate : (performForWriting [.create temporary]).Ends t₁ (fun _ t₂ => t₁.AddsFile t₂ l [])
        fun e t' => t₁.replaceRefusal? temporary p text = some e ∧ t₁.SameNodes t' :=
      .adaptExcept (ends_perform_of_ok hmade (ends_perform_nil (FileTree.addsFile_put (hfree hl))))
    refine hcreate.bind fun _ t₂ hadds => ?_
    refine (replaceWith_ends hadds hl hnew).tryCatch fun e t₃ ⟨hrefusal, bytes, hleft⟩ => ?_
    have hdiscard := (discard_ends hleft hl).mono (fun _ _ h => h) fun e' t' hfalse =>
      (hfalse.elim : t₁.replaceRefusal? temporary p text = some e' ∧ t₁.SameNodes t')
    exact hdiscard.bind fun _ t₄ same => FileM.ends_throw ⟨hrefusal, same⟩

theorem writeAtomic_of_unbalanced {i : Imbalance} (h : imbalance? text = some i) :
    writeAtomic p text true t = .error (.unbalanced i) t := by
  have hcheck : checkBalance text = throw (.unbalanced i) := by
    unfold checkBalance
    rw [h]
  unfold writeAtomic
  dsimp only
  rw [if_pos rfl, hcheck]
  rfl

theorem writeAtomic_of_balanced (h : imbalance? text = none) :
    writeAtomic p text true t = writeAtomic p text false t := by
  have hcheck : checkBalance text = pure () := by
    unfold checkBalance
    rw [h]
  unfold writeAtomic
  dsimp only
  rw [if_pos rfl, hcheck, if_neg Bool.false_ne_true]
  rfl

/-! ### The careful way -/

theorem writeNew_apply : writeNew p text true t = (match t.fileOrDirectoryExists p with
    | .error e => throw (.file e)
    | .ok true => throw (.outputExists p)
    | .ok false => writeAtomic p text true : FileM WriteError Unit) t := rfl

/-- Where nothing exists yet, the careful way is the atomic one. -/
theorem writeNew_eq_ok_iff : writeNew p text true t = .ok () t₁ ↔
    t.fileOrDirectoryExists p = .ok false ∧ writeAtomic p text true t = .ok () t₁ := by
  rw [writeNew_apply]
  cases t.fileOrDirectoryExists p with
  | error e => exact iff_of_false nofun nofun
  | ok there =>
    cases there with
    | true => exact iff_of_false nofun nofun
    | false => exact (and_iff_right rfl).symm

/-- Where overwriting is forbidden, nothing is found at an output that has been written. -/
theorem OutputSettings.not_found_of_write {s : OutputSettings} (hmode : s.mode = .known .errorIfExists)
    (h : s.write p text t = .ok () t₁) : ∀ found, t.find p ≠ .ok found := by
  unfold OutputSettings.write at h
  rw [if_pos hmode] at h
  obtain ⟨-, hthere⟩ := FileTree.fileOrDirectoryExists_eq_ok_iff.1 (writeNew_eq_ok_iff.1 h).1
  exact fun found hfound => Bool.false_ne_true (hthere.2 ⟨found, hfound⟩)

/-! ### The plain way -/

theorem writePlain_of_makeParent_error (h : makeParent p t = .error e t₁) :
    writePlain p text t = .error e t₁ := FileM.bind_of_error h

/-- How a plain write ends once the directory of the output is made. When it is refused it may already
have emptied the output. -/
theorem writePlain_result (h : makeParent p t = .ok () t₁) :
    (writePlain p text).Ends t
      (fun _ t' => t₁.plainRefusal? p text = none ∧ t₁.Receives t' p text)
      fun e t' => t₁.plainRefusal? p text = some e ∧ t' = t₁.emptied p := by
  refine .bind_of_ok h ?_
  unfold FileTree.plainRefusal? FileTree.emptied
  cases hl : t₁.locate p with
  | error fault =>
    have hopen := FileTree.truncateFile_of_locate_error hl
    have hfails : (performForWriting [.truncate p]).Ends t₁ (fun _ _ => False) fun e t' =>
        some (WriteError.file ⟨fault, p, none⟩) = some e ∧ t' = t₁ :=
      .adaptExcept (ends_perform_of_error hopen ⟨rfl, rfl⟩)
    rw [hopen]
    exact hfails.bind fun _ _ hfalse => hfalse.elim
  | ok l =>
    have hopen := FileTree.truncateFile_of_locate hl
    rw [if_congr (FileTree.leadsToDirectory_iff_of_locate hl) rfl rfl]
    dsimp only
    split_ifs at hopen ⊢ with hdirectory
    · have hfails : (performForWriting [.truncate p]).Ends t₁ (fun _ _ => False) fun e t' =>
          some (WriteError.file ⟨.isDirectory, p, none⟩) = some e ∧ t' = t₁ :=
        .adaptExcept (ends_perform_of_error hopen ⟨rfl, rfl⟩)
      rw [hopen]
      exact hfails.bind fun _ _ hfalse => hfalse.elim
    · rw [hopen]
      have hempties : ∀ error, (performForWriting [.truncate p]).Ends t₁
          (fun _ t₂ => t₂ = t₁.put l (.file [])) error :=
        fun error => .adaptExcept (ends_perform_of_ok hopen (ends_perform_nil rfl))
      refine (hempties _).bind fun _ t₂ ht₂ => ?_
      subst ht₂
      cases hencode : Utf8.encode text with
      | error e => exact FileM.ends_throw ⟨rfl, rfl⟩
      | ok bytes =>
        have hempty : (t₁.put l (.file [])).nodeAt l = some (.file []) := by
          rw [FileTree.nodeAt_put t₁ _ (FileTree.ne_root hdirectory), if_pos rfl]
        have happend : (t₁.put l (.file [])).appendFile p bytes =
            .ok ((t₁.put l (.file [])).put l (.file ([] ++ bytes))) :=
          FileTree.appendFile_eq_ok_iff.2
            ⟨l, [], (FileTree.keepsDirectories_put hdirectory).locate hl, hempty, rfl⟩
        exact .adaptExcept (ends_perform_of_ok happend (ends_perform_nil ⟨rfl, bytes, l, hencode, hl,
          hdirectory, FileTree.sameNodes_put_put t₁ (FileTree.ne_root hdirectory)⟩))

end

/-! ### Runs -/

/-- The result of a run that has generated its text, as it follows from that of writing. -/
def resultOfWriting (text : Text) :
    EStateM.Result WriteError FileTree Unit → EStateM.Result Failure FileTree Text
  | .ok _ t => .ok text t
  | .error e t => .error (.write e) t

namespace Generator

variable {g : Generator} {t : FileTree} {output : Path} {commandLine : Except FileError Text}

theorem write_apply : g.write output commandLine t = (match g.generate t commandLine with
    | .error e => throw e
    | .ok text => do
      match g.config.output with
      | .settings s => (s.write output text).adaptExcept .write
      | .value v => throw (.config (.noPart v.kind modeKey))
      | .missing => throw (.config .noSection)
      return text : FileM Failure Text) t := rfl

theorem write_of_generate_error {e : Failure} (h : g.generate t commandLine = .error e) :
    g.write output commandLine t = .error e t := by
  rw [write_apply, h]
  rfl

theorem write_of_generate_ok {text : Text} {s : OutputSettings}
    (h : g.generate t commandLine = .ok text) (houtput : g.config.output = .settings s) :
    g.write output commandLine t = resultOfWriting text (s.write output text t) := by
  rw [write_apply, h, houtput]
  change EStateM.bind (EStateM.adaptExcept Failure.write (s.write output text)) (fun _ => pure text) t = _
  unfold EStateM.bind EStateM.adaptExcept
  cases s.write output text t <;> rfl

/-- A run succeeds when its text is generated and written. -/
theorem write_eq_ok_iff {text : Text} {t' : FileTree} : g.write output commandLine t = .ok text t' ↔
    ∃ s, g.config.output = .settings s ∧ g.generate t commandLine = .ok text ∧
      s.write output text t = .ok () t' := by
  cases hgenerate : g.generate t commandLine with
  | error e =>
    rw [write_of_generate_error hgenerate]
    exact iff_of_false nofun (by rintro ⟨_, -, h, -⟩; cases h)
  | ok content =>
    cases houtput : g.config.output with
    | value v =>
      rw [write_apply, hgenerate, houtput]
      exact iff_of_false (fun h => nomatch h) (by rintro ⟨_, h, -⟩; cases h)
    | missing =>
      rw [write_apply, hgenerate, houtput]
      exact iff_of_false (fun h => nomatch h) (by rintro ⟨_, h, -⟩; cases h)
    | settings s =>
      rw [write_of_generate_ok hgenerate houtput]
      constructor
      · intro h
        cases hwrite : s.write output content t with
        | ok _ t₁ =>
          rw [hwrite] at h
          cases h
          exact ⟨s, rfl, rfl, hwrite⟩
        | error e t₁ =>
          rw [hwrite] at h
          cases h
      · rintro ⟨s', hs, hcontent, hwrite⟩
        cases hs
        cases hcontent
        rw [hwrite]
        rfl

end Generator

end LootTables
