import LootTables.Proofs.Output.AllOrNothing
import LootTables.Proofs.Files.Resolved
import Mathlib.Logic.Relation

/-!
# Interrupted writes

An atomic write is a sequence of file operations. The directories above the output are made, a
temporary file is made next to the output, the encoded text is added to it in chunks, and the file is
moved to the output; once something goes wrong the temporary file is removed. `WriteStep` has a
constructor for each of these operations and for each way to come to an early end, whatever the reason
for it may be, so that a write can be interrupted in exactly the trees that it reaches (`Reaches`).

Each stage of a write knows what it has done to the tree (`WriteStage.Holds`). One step keeps this
(`WriteStage.Holds.step`), and so does every run (`holds_of_reaches`). It follows that at no time there is
anything at the output but the file that was there, or the whole text (`interrupted_write_spares`), and
`writeAtomic_reaches` says that the actual write takes such steps.
-/

namespace LootTables

/-! ### The steps of a write -/

/-- How far an atomic write has come. -/
inductive WriteStage where
  /-- Some directories above the output have still to be made. -/
  | making (missing : List Path)
  /-- There is a temporary file, and this has been written to it. -/
  | filling (temporary : Path) (written : Bytes)
  /-- The temporary file has taken the place of the output. -/
  | done
  /-- Something went wrong, and the temporary file has still to be removed. -/
  | discarding (temporary : Path)
  | failed

/-- A write starts with the directories that are needed for the output. -/
def WriteStage.start (t : FileTree) (p : Path) : WriteStage :=
  .making (t.neededDirectories p.parent.anchor p.parent.parts.reverse)

variable {t t' t₁ : FileTree} {p temporary : Path} {text : Text} {l : Location}

/-- One operation of an atomic write of `text` to `p`, or its end before it is through. -/
inductive WriteStep (p : Path) (text : Text) : WriteStage × FileTree → WriteStage × FileTree → Prop
  | makeDirectory {q : Path} {missing : List Path} {t t' : FileTree}
      (h : (FileAction.ensureDirectory q).apply t = .ok t') :
      WriteStep p text (.making (q :: missing), t) (.making missing, t')
  /-- The name of the temporary file may be any that is free. -/
  | create {tag : Text} {t t' : FileTree}
      (h : (FileAction.create (p.sibling (hiddenName p.name tag))).apply t = .ok t') :
      WriteStep p text (.making [], t) (.filling (p.sibling (hiddenName p.name tag)) [], t')
  /-- A chunk is any part of the encoded text that comes next. -/
  | append {temporary : Path} {written chunk rest : Bytes} {t t' : FileTree}
      (hencode : Utf8.encode text = .ok (written ++ chunk ++ rest))
      (h : (FileAction.append temporary chunk).apply t = .ok t') :
      WriteStep p text (.filling temporary written, t) (.filling temporary (written ++ chunk), t')
  | move {temporary : Path} {written : Bytes} {t t' : FileTree}
      (hencode : Utf8.encode text = .ok written)
      (h : (FileAction.rename temporary p).apply t = .ok t') :
      WriteStep p text (.filling temporary written, t) (.done, t')
  /-- Something goes wrong before there is a temporary file. -/
  | stop {missing : List Path} {t : FileTree} : WriteStep p text (.making missing, t) (.failed, t)
  /-- Something goes wrong while there is one. -/
  | giveUp {temporary : Path} {written : Bytes} {t : FileTree} :
      WriteStep p text (.filling temporary written, t) (.discarding temporary, t)
  | discard {temporary : Path} {t t' : FileTree}
      (h : (FileAction.remove temporary).apply t = .ok t') :
      WriteStep p text (.discarding temporary, t) (.failed, t')
  /-- Not even the temporary file can be removed. -/
  | leave {temporary : Path} {t : FileTree} :
      WriteStep p text (.discarding temporary, t) (.failed, t)

/-- A write comes from one stage and tree to another by any number of steps. -/
abbrev Reaches (p : Path) (text : Text) : WriteStage × FileTree → WriteStage × FileTree → Prop :=
  Relation.ReflTransGen (WriteStep p text)

/-! ### What a stage has done -/

namespace FileTree

/-- The tree `t'` is `t` with new directories above the output and with a temporary file next to it,
where nothing was. -/
def HasTemporary (t t' : FileTree) (p temporary : Path) (written : Bytes) : Prop :=
  ∃ t₁ l tag, t.GrowsTowards t₁ p.parent ∧ temporary = p.sibling (hiddenName p.name tag) ∧
    t₁.locate temporary = .ok l ∧ t₁.AddsFile t' l written

/-- The tree `t'` is `t` with new directories above the output and with the whole text in it. -/
def HasOutput (t t' : FileTree) (p : Path) (text : Text) : Prop :=
  ∃ t₁, t.GrowsTowards t₁ p.parent ∧ t₁.Receives t' p text

end FileTree

/-- What a write that began with `t` has made of it by the time of a stage. -/
def WriteStage.Holds (t : FileTree) (p : Path) (text : Text) : WriteStage × FileTree → Prop
  | (.making missing, t') => t.GrowsTowards t' p.parent ∧
      ∀ q ∈ missing, q.anchor = p.parent.anchor ∧ q.parts <+: p.parent.parts
  | (.filling temporary written, t') => t.HasTemporary t' p temporary written
  | (.done, t') => t.HasOutput t' p text
  | (.discarding temporary, t') => ∃ written, t.HasTemporary t' p temporary written
  | (.failed, t') => t.GrowsTowards t' p.parent ∨
      ∃ temporary written, t.HasTemporary t' p temporary written

namespace WriteStage.Holds

theorem start (t : FileTree) (p : Path) (text : Text) :
    WriteStage.Holds t p text (.start t p, t) := by
  refine ⟨.refl t p.parent, ?_⟩
  intro q hq
  have h := mem_neededDirectories hq
  rwa [List.reverse_reverse] at h

end WriteStage.Holds

/-- A file that can be moved is moved to where the path of its target leads. -/
theorem FileTree.locate_of_renameFile (h : t.renameFile temporary p = .ok t') :
    ∃ l, t.locate p = .ok l := by
  unfold renameFile at h
  obtain ⟨l, hl, -⟩ := bind_eq_ok_iff.1 (mapError_eq_ok_iff.1 h)
  exact ⟨l, hl⟩

/-- Moving the complete temporary file leaves the tree before it with the text in the output. -/
theorem FileTree.AddsFile.receives {bytes : Bytes} (h : t₁.AddsFile t l bytes)
    (hl : t₁.locate temporary = .ok l) (hencode : Utf8.encode text = .ok bytes)
    (hmove : t.renameFile temporary p = .ok t') : t₁.Receives t' p text := by
  obtain ⟨new, hnew⟩ := locate_of_renameFile hmove
  have hfind : t.find temporary = .ok (l, .file bytes) :=
    find_eq_ok_iff.2 ⟨h.keepsDirectories.locate hl, h.file⟩
  rw [renameFile_of_find hfind hnew] at hmove
  split_ifs at hmove with hname hdirectory
  cases hmove
  have hplace : t₁.nodeAt new ≠ some .directory :=
    fun hd => hdirectory (h.keepsDirectories.directory new hd)
  exact ⟨bytes, new, hencode, h.differAt.symm.keepsDirectories.locate hnew, hplace,
    h.erase.put (ne_root hplace)⟩

/-- One step keeps what a stage says of the tree. -/
theorem WriteStage.Holds.step {s s' : WriteStage × FileTree} (h : Holds t p text s)
    (hstep : WriteStep p text s s') : Holds t p text s' := by
  cases hstep with
  | @makeDirectory q missing t₁ t₂ hmake =>
    obtain ⟨hgrows, hmissing⟩ := h
    obtain ⟨⟨hanchor, hparts⟩, hrest⟩ := List.forall_mem_cons.1 hmissing
    refine ⟨?_, hrest⟩
    rcases FileTree.ensureDirectory_cases hmake with rfl | ⟨l, hl, habsent, rfl⟩
    · exact hgrows
    · obtain ⟨anchor, names⟩ := q
      cases hanchor
      exact hgrows.put hparts hl habsent
  | @create tag t₁ t₂ hcreate =>
    obtain ⟨l, hl, habsent, rfl⟩ := FileTree.createFile_eq_ok_iff.1 hcreate
    exact ⟨t₁, l, tag, h.1, rfl, hl, FileTree.addsFile_put habsent⟩
  | @append temporary written chunk rest t₂ t₃ _ happend =>
    obtain ⟨t₁, l, tag, hgrows, htemporary, hl, hadds⟩ := h
    obtain ⟨k, before, hk, hbefore, rfl⟩ := FileTree.appendFile_eq_ok_iff.1 happend
    -- The temporary file is still where it was made, with what has been written to it.
    cases (hadds.keepsDirectories.locate hl).symm.trans hk
    cases hadds.file.symm.trans hbefore
    exact ⟨t₁, l, tag, hgrows, htemporary, hl, hadds.put _⟩
  | move hencode hmove =>
    obtain ⟨t₁, l, tag, hgrows, htemporary, hl, hadds⟩ := h
    exact ⟨t₁, hgrows, hadds.receives hl hencode hmove⟩
  | stop => exact .inl h.1
  | giveUp => exact ⟨_, h⟩
  | @discard temporary t₂ t₃ hremove =>
    obtain ⟨written, t₁, l, tag, hgrows, htemporary, hl, hadds⟩ := h
    obtain ⟨k, content, hk, -, rfl⟩ := FileTree.removeFile_eq_ok_iff.1 hremove
    cases (hadds.keepsDirectories.locate hl).symm.trans hk
    exact .inl (hgrows.congr hadds.erase)
  | leave => exact .inr ⟨_, h⟩

/-- So all stages of a run say the truth of the tree. -/
theorem holds_of_reaches {s : WriteStage × FileTree} (h : Reaches p text (.start t p, t) s) :
    WriteStage.Holds t p text s := by
  induction h with
  | refl => exact .start t p text
  | tail _ hstep ih => exact ih.step hstep

/-! ### What is there to be seen -/

namespace FileTree

/-- Seen from `t`, no file but the output has changed in `t'`, and the output has not, unless it holds
the whole text. -/
structure Spares (t t' : FileTree) (p : Path) (text : Text) : Prop where
  workingDirectory : t'.workingDirectory = t.workingDirectory
  /-- The path of the output leads where it led. -/
  stays : ∀ l, t.locate p = .ok l → t'.locate p = .ok l
  /-- There is the file that was there, or none if there was none, or the whole text. -/
  output : ∀ l, t'.locate p = .ok l →
    (∀ bytes, t'.nodeAt l = some (.file bytes) ↔ t.nodeAt l = some (.file bytes)) ∨
      ∃ bytes, Utf8.encode text = .ok bytes ∧ t'.nodeAt l = some (.file bytes)
  /-- Every file that was elsewhere is there, and holds what it held. -/
  others : ∀ k bytes, t'.locate p ≠ .ok k → t.nodeAt k = some (.file bytes) →
    t'.nodeAt k = some (.file bytes)

theorem GrowsTowards.spares (h : t.GrowsTowards t' p.parent) : t.Spares t' p text where
  workingDirectory := h.workingDirectory
  stays _ hl := h.keepsDirectories.locate hl
  output l _ := .inl (h.sameFiles l)
  others k bytes _ hk := (h.sameFiles k bytes).2 hk

theorem HasTemporary.spares {written : Bytes} (h : t.HasTemporary t' p temporary written) :
    t.Spares t' p text := by
  obtain ⟨t₁, l, tag, hgrows, rfl, hl, hadds⟩ := h
  refine ⟨hadds.workingDirectory.trans hgrows.workingDirectory, ?_, ?_, ?_⟩
  · intro k hk
    exact (hgrows.keepsDirectories.trans hadds.keepsDirectories).locate hk
  · intro k hk
    -- The temporary file is not where the output is.
    have hne : k ≠ l :=
      ne_of_locate_hiddenName hl (hadds.differAt.symm.keepsDirectories.locate hk)
    left
    intro bytes
    rw [hadds.node k hne]
    exact hgrows.sameFiles k bytes
  · intro k bytes _ hk
    have hfile : t₁.nodeAt k = some (.file bytes) := (hgrows.sameFiles k bytes).2 hk
    have hne : k ≠ l := by
      rintro rfl
      cases hadds.absent.symm.trans hfile
    rw [hadds.node k hne, hfile]

theorem HasOutput.spares (h : t.HasOutput t' p text) : t.Spares t' p text := by
  obtain ⟨t₁, hgrows, bytes, l, hencode, hl, hplace, hput⟩ := h
  have hroot : l ≠ [] := ne_root hplace
  have keeps : t₁.KeepsDirectories t' := (keepsDirectories_put hplace).trans hput.keepsDirectories
  refine ⟨hput.workingDirectory.trans hgrows.workingDirectory, ?_, ?_, ?_⟩
  · intro k hk
    exact (hgrows.keepsDirectories.trans keeps).locate hk
  · intro k hk
    cases (keeps.locate hl).symm.trans hk
    right
    refine ⟨bytes, hencode, ?_⟩
    rw [hput.node l, nodeAt_put t₁ _ hroot, if_pos rfl]
  · intro k bytes' hk hfile
    have hne : k ≠ l := by
      rintro rfl
      exact hk (keeps.locate hl)
    rw [hput.node k, nodeAt_put t₁ _ hroot, if_neg hne]
    exact (hgrows.sameFiles k bytes').2 hfile

/-- Whoever reads the output finds what was to be found before, or the whole text. -/
theorem Spares.contentOf (h : t.Spares t' p text) (grounded : t.IsGrounded)
    (hp : Path.aboveName ∉ p.parts) :
    (∀ bytes, t'.contentOf p = .ok bytes ↔ t.contentOf p = .ok bytes) ∨
      ∃ bytes, Utf8.encode text = .ok bytes ∧ t'.contentOf p = .ok bytes := by
  have hstart : t'.start p = t.start p := by
    unfold start
    rw [h.workingDirectory]
  by_cases hthere : ∃ l, t'.locate p = .ok l
  · obtain ⟨l, hl⟩ := hthere
    rcases h.output l hl with hsame | ⟨bytes, hencode, hbytes⟩
    · left
      intro bytes
      rw [contentOf_eq_ok_iff, contentOf_eq_ok_iff]
      constructor
      · rintro ⟨k, hk, hfile⟩
        cases hl.symm.trans hk
        have hold := (hsame bytes).1 hfile
        exact ⟨l, grounded.locate_of_nodeAt hp hstart hl (by simp [hold]), hold⟩
      · rintro ⟨k, hk, hfile⟩
        cases hl.symm.trans (h.stays k hk)
        exact ⟨l, hl, (hsame bytes).2 hfile⟩
    · exact .inr ⟨bytes, hencode, contentOf_eq_ok_iff.2 ⟨l, hl, hbytes⟩⟩
  · left
    intro bytes
    rw [contentOf_eq_ok_iff, contentOf_eq_ok_iff]
    constructor
    · rintro ⟨l, hl, -⟩
      exact absurd ⟨l, hl⟩ hthere
    · rintro ⟨l, hl, -⟩
      exact absurd ⟨l, h.stays l hl⟩ hthere

end FileTree

theorem WriteStage.Holds.spares {stage : WriteStage} (h : Holds t p text (stage, t')) :
    t.Spares t' p text := by
  cases stage with
  | making missing => exact h.1.spares
  | filling temporary written => exact FileTree.HasTemporary.spares h
  | done => exact FileTree.HasOutput.spares h
  | discarding temporary =>
    obtain ⟨written, h⟩ := h
    exact h.spares
  | failed =>
    rcases h with h | ⟨temporary, written, h⟩
    · exact h.spares
    · exact h.spares

/-! ### The actual write -/

/-- The directories are made one after the other. -/
theorem perform_reaches (p : Path) (text : Text) (missing : List Path) (t : FileTree) :
    (perform (missing.map .ensureDirectory)).Ends t
      (fun _ t' => Reaches p text (.making missing, t) (.making [], t'))
      fun _ t' => Reaches p text (.making missing, t) (.failed, t') := by
  induction missing generalizing t with
  | nil => exact ends_perform_nil .refl
  | cons q missing ih =>
    rw [List.map_cons]
    apply ends_perform_cons
    · intro t₁ hmake
      apply (ih t₁).mono
      · intro _ t' hreaches
        exact .head (.makeDirectory hmake) hreaches
      · intro _ t' hreaches
        exact .head (.makeDirectory hmake) hreaches
    · intro e _
      exact .single .stop

theorem makeParent_reaches (p : Path) (text : Text) (t : FileTree) :
    (makeParent p).Ends t (fun _ t' => Reaches p text (.start t p, t) (.making [], t'))
      fun _ t' => Reaches p text (.start t p, t) (.failed, t') := by
  apply FileM.Ends.adaptExcept
  apply FileM.ends_get
  exact perform_reaches p text _ t

/-- The temporary file is filled and moved, or it is given up. -/
theorem replaceWith_reaches (p temporary : Path) (text : Text) (t : FileTree) :
    (replaceWith temporary p text).Ends t
      (fun _ t' => Reaches p text (.filling temporary [], t) (.done, t'))
      fun _ t' => Reaches p text (.filling temporary [], t) (.discarding temporary, t') := by
  unfold replaceWith
  split
  · next bytes hencode =>
    apply FileM.Ends.adaptExcept
    apply ends_perform_cons
    · intro t₁ happend
      -- All of the text is one chunk.
      have hwhole : Utf8.encode text = .ok ([] ++ bytes ++ []) := by simpa using hencode
      have hfill : Reaches p text (.filling temporary [], t) (.filling temporary bytes, t₁) :=
        .single (.append hwhole happend)
      apply ends_perform_cons
      · intro t₂ hmove
        exact ends_perform_nil (hfill.tail (.move hencode hmove))
      · intro e _
        exact hfill.tail .giveUp
    · intro e _
      exact .single .giveUp
  · exact FileM.ends_throw (.single .giveUp)

/-- Whether or not the temporary file can be removed, the write ends there. -/
theorem discard_reaches {error : WriteError → FileTree → Prop} (p temporary : Path) (text : Text)
    (t : FileTree) : (discard temporary).Ends t
      (fun _ t' => Reaches p text (.discarding temporary, t) (.failed, t')) error := by
  have hremove : (performForWriting [.remove temporary]).Ends t
      (fun _ t' => Reaches p text (.discarding temporary, t) (.failed, t')) fun _ t' => t' = t := by
    apply FileM.Ends.adaptExcept
    apply ends_perform_cons
    · intro t' hremove
      exact ends_perform_nil (.single (.discard hremove))
    · intro e _
      rfl
  apply hremove.tryCatch
  intro e t' ht'
  rw [ht']
  exact FileM.ends_pure (.single .leave)

theorem writeAtomic_unchecked_reaches (p : Path) (text : Text) (t : FileTree) :
    (writeAtomic p text false).Ends t
      (fun _ t' => Reaches p text (.start t p, t) (.done, t'))
      fun _ t' => Reaches p text (.start t p, t) (.failed, t') := by
  unfold writeAtomic
  dsimp only
  rw [if_neg Bool.false_ne_true]
  apply (makeParent_reaches p text t).bind
  intro _ t₁ hmade
  apply FileM.ends_get
  obtain ⟨tag, htemporary, -⟩ := t₁.temporaryPath_first p
  rw [htemporary, temporaryName_eq_hiddenName]
  generalize paddedTag tag = hidden
  have hcreate : (performForWriting [.create (p.sibling (hiddenName p.name hidden))]).Ends t₁
      (fun _ t₂ => Reaches p text (.start t p, t)
        (.filling (p.sibling (hiddenName p.name hidden)) [], t₂))
      fun _ t' => Reaches p text (.start t p, t) (.failed, t') := by
    apply FileM.Ends.adaptExcept
    apply ends_perform_cons
    · intro t₂ hcreate
      exact ends_perform_nil (hmade.tail (.create hcreate))
    · intro e _
      exact hmade.tail .stop
  apply hcreate.bind
  intro _ t₂ hcreated
  have hreplace := (replaceWith_reaches p _ text t₂).mono (fun _ _ h => hcreated.trans h)
    fun _ _ h => hcreated.trans h
  apply hreplace.tryCatch
  intro e t₃ hgivenUp
  apply (discard_reaches p _ text t₃).bind
  intro _ t₄ hdiscard
  exact FileM.ends_throw (hgivenUp.trans hdiscard)

/-- The actual write takes the steps of one, to its end. -/
theorem writeAtomic_reaches (p : Path) (text : Text) (checked : Bool) (t : FileTree) :
    (writeAtomic p text checked).Ends t
      (fun _ t' => Reaches p text (.start t p, t) (.done, t'))
      fun _ t' => Reaches p text (.start t p, t) (.failed, t') := by
  have hunchecked := writeAtomic_unchecked_reaches p text t
  cases checked with
  | false => exact hunchecked
  | true =>
    unfold FileM.Ends at hunchecked ⊢
    cases hbalance : imbalance? text with
    | none => rwa [writeAtomic_of_balanced hbalance]
    | some i =>
      rw [writeAtomic_of_unbalanced hbalance]
      exact .single .stop

/-! ### Interruptions -/

/-- Wherever an atomic write is interrupted, also after something went wrong, every file that was there
holds what it held, and the output is as it was or holds the whole text; so whoever reads it through a
path without steps up finds what was to be found before, or the whole text. A write that is through has
put the text there, and the actual write is such a sequence of steps, to its end. -/
theorem interrupted_write_spares (t : FileTree) (p : Path) (text : Text) :
    (∀ stage t', Reaches p text (.start t p, t) (stage, t') →
      t.Spares t' p text ∧
        (t.IsGrounded → Path.aboveName ∉ p.parts →
          (∀ bytes, t'.contentOf p = .ok bytes ↔ t.contentOf p = .ok bytes) ∨
            ∃ bytes, Utf8.encode text = .ok bytes ∧ t'.contentOf p = .ok bytes)) ∧
      (∀ t', Reaches p text (.start t p, t) (.done, t') → t.IsWritten t' p text) ∧
      ∀ checked, (writeAtomic p text checked).Ends t
        (fun _ t' => Reaches p text (.start t p, t) (.done, t'))
        fun _ t' => Reaches p text (.start t p, t) (.failed, t') := by
  refine ⟨?_, ?_, fun checked => writeAtomic_reaches p text checked t⟩
  · intro stage t' hreaches
    have hspares := (holds_of_reaches hreaches).spares
    exact ⟨hspares, hspares.contentOf⟩
  · intro t' hreaches
    obtain ⟨t₁, hgrows, hreceives⟩ := holds_of_reaches hreaches
    exact hgrows.isWritten hreceives

/-- The temporary file for the notes of `bareTree`. -/
def notesTemporary : Path := ⟨.root, [hiddenName "notes" "x"]⟩

/-- A write of two chunks to the notes is interrupted after the first: the notes are as they were. -/
theorem halfWritten_notes : ∃ t',
    Reaches ⟨.root, ["notes"]⟩ "bc" (.start bareTree ⟨.root, ["notes"]⟩, bareTree)
      (.filling notesTemporary [0x62], t') ∧
    t'.contentOf notesTemporary = .ok [0x62] ∧ t'.contentOf ⟨.root, ["notes"]⟩ = .ok [0x61] := by
  have hmake : (FileAction.ensureDirectory ⟨.root, []⟩).apply bareTree = .ok bareTree := rfl
  have hcreate : (FileAction.create notesTemporary).apply bareTree =
      .ok (bareTree.put notesTemporary.parts (.file [])) := rfl
  have happend : (FileAction.append notesTemporary [0x62]).apply
      (bareTree.put notesTemporary.parts (.file [])) =
      .ok ((bareTree.put notesTemporary.parts (.file [])).put notesTemporary.parts (.file [0x62])) := rfl
  have hencode : Utf8.encode "bc" = .ok ([] ++ [0x62] ++ [0x63]) := by decide
  have hreaches : Reaches ⟨.root, ["notes"]⟩ "bc" (.start bareTree ⟨.root, ["notes"]⟩, bareTree)
      (.filling notesTemporary [0x62], _) :=
    .tail (.tail (.single (.makeDirectory hmake)) (.create hcreate)) (.append hencode happend)
  refine ⟨_, hreaches, rfl, ?_⟩
  rcases ((interrupted_write_spares _ _ _).1 _ _ hreaches).2 (by decide) (by decide) with hsame | hwhole
  · exact (hsame [0x61]).2 rfl
  · obtain ⟨bytes, hbytes, hcontent⟩ := hwhole
    cases hencode.symm.trans hbytes
    exact absurd hcontent (by decide)

end LootTables
