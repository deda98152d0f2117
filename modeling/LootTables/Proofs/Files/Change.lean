import LootTables.Files.Action
import LootTables.Proofs.Files.Walk

/-!
# What actions do

One lemma for each action that takes place: from where to where its path leads, what it found
there, and which tree it leaves. Only three kinds of change come out of them: a directory or an
empty file at a place that was empty, another content for a file, and a file that is gone or moved.
-/

namespace LootTables.FileTree

variable {t t' : FileTree} {p target : Path}

theorem walking_eq_ok_iff {α : Type} {r : Except FileFault α} {a : α} :
    walking p r = .ok a ↔ r = .ok a := mapError_eq_ok_iff

theorem find_eq_ok_iff {l : Location} {node : Node} :
    t.find p = .ok (l, node) ↔ t.locate p = .ok l ∧ t.nodeAt l = some node := by
  unfold find
  rw [bind_eq_ok_iff]
  constructor
  · rintro ⟨k, hk, h⟩
    split at h
    · next found hfound =>
      cases h
      exact ⟨hk, hfound⟩
    · cases h
  · rintro ⟨hl, hnode⟩
    refine ⟨l, hl, ?_⟩
    rw [hnode]
    rfl

/-- A directory is found alike where there are further ones. -/
theorem KeepsDirectories.find_directory {l : Location} (keeps : t.KeepsDirectories t')
    (h : t.find p = .ok (l, .directory)) : t'.find p = .ok (l, .directory) := by
  obtain ⟨hl, hdirectory⟩ := find_eq_ok_iff.1 h
  exact find_eq_ok_iff.2 ⟨keeps.locate hl, keeps.directory l hdirectory⟩

theorem contentOf_eq_ok_iff {content : Bytes} :
    t.contentOf p = .ok content ↔ ∃ l, t.locate p = .ok l ∧ t.nodeAt l = some (.file content) := by
  unfold contentOf
  constructor
  · intro h
    split at h
    · next l found hfind =>
      cases h
      exact ⟨l, find_eq_ok_iff.1 hfind⟩
    · cases h
    · cases h
  · rintro ⟨l, h⟩
    rw [find_eq_ok_iff.2 h]

/-- Making something new, whatever it is, takes an empty place. -/
theorem make_eq_ok_iff {node : Node} :
    (do
      let l ← walking p (t.locate p)
      match t.nodeAt l with
      | some _ => refuse p .alreadyExists
      | none => return t.put l node) = .ok t' ↔
      ∃ l, t.locate p = .ok l ∧ t.nodeAt l = none ∧ t' = t.put l node := by
  simp only [bind_eq_ok_iff, walking_eq_ok_iff]
  refine exists_congr fun l => and_congr_right fun _ => ?_
  cases t.nodeAt l <;> simp [pure, Except.pure, refuse, eq_comm]

theorem makeDirectory_eq_ok_iff :
    t.makeDirectory p = .ok t' ↔
      ∃ l, t.locate p = .ok l ∧ t.nodeAt l = none ∧ t' = t.put l .directory := make_eq_ok_iff

theorem createFile_eq_ok_iff :
    t.createFile p = .ok t' ↔
      ∃ l, t.locate p = .ok l ∧ t.nodeAt l = none ∧ t' = t.put l (.file []) := make_eq_ok_iff

theorem ensureDirectory_cases (h : t.ensureDirectory p = .ok t') :
    t' = t ∨ ∃ l, t.locate p = .ok l ∧ t.nodeAt l = none ∧ t' = t.put l .directory := by
  unfold ensureDirectory at h
  split at h
  · next made hmade =>
    cases h
    exact .inr (makeDirectory_eq_ok_iff.1 hmade)
  · next e he =>
    left
    obtain ⟨isThere, -, h⟩ := bind_eq_ok_iff.1 h
    split at h
    · exact (pure_eq_ok_iff.1 h).symm
    · cases h

theorem appendFile_eq_ok_iff {content : Bytes} :
    t.appendFile p content = .ok t' ↔ ∃ l before, t.locate p = .ok l ∧
      t.nodeAt l = some (.file before) ∧ t' = t.put l (.file (before ++ content)) := by
  unfold appendFile
  rw [bind_eq_ok_iff]
  constructor
  · rintro ⟨⟨l, node⟩, hfind, h⟩
    obtain ⟨hl, hnode⟩ := find_eq_ok_iff.1 (walking_eq_ok_iff.1 hfind)
    cases node with
    | directory => cases h
    | file before =>
      cases h
      exact ⟨l, before, hl, hnode, rfl⟩
  · rintro ⟨l, before, hl, hnode, rfl⟩
    exact ⟨(l, .file before), walking_eq_ok_iff.2 (find_eq_ok_iff.2 ⟨hl, hnode⟩), rfl⟩

theorem removeFile_eq_ok_iff :
    t.removeFile p = .ok t' ↔ ∃ l content, t.locate p = .ok l ∧
      t.nodeAt l = some (.file content) ∧ t' = t.erase l := by
  unfold removeFile
  rw [bind_eq_ok_iff]
  constructor
  · rintro ⟨⟨l, node⟩, hfind, h⟩
    obtain ⟨hl, hnode⟩ := find_eq_ok_iff.1 (walking_eq_ok_iff.1 hfind)
    cases node with
    | directory => cases h
    | file content =>
      cases h
      exact ⟨l, content, hl, hnode, rfl⟩
  · rintro ⟨l, content, hl, hnode, rfl⟩
    exact ⟨(l, .file content), walking_eq_ok_iff.2 (find_eq_ok_iff.2 ⟨hl, hnode⟩), rfl⟩

theorem createFile_of_locate_error {fault : FileFault} (h : t.locate p = .error fault) :
    t.createFile p = .error ⟨fault, p, none⟩ := by
  unfold createFile
  rw [h]
  rfl

theorem truncateFile_of_locate_error {fault : FileFault} (h : t.locate p = .error fault) :
    t.truncateFile p = .error ⟨fault, p, none⟩ := by
  unfold truncateFile
  rw [h]
  rfl

theorem truncateFile_of_locate {l : Location} (h : t.locate p = .ok l) :
    t.truncateFile p = if t.nodeAt l = some .directory then .error ⟨.isDirectory, p, none⟩
      else .ok (t.put l (.file [])) := by
  unfold truncateFile
  rw [h]
  simp only [walking, Except.mapError, bind, Except.bind]
  split
  · next hdirectory =>
    rw [if_pos hdirectory]
    rfl
  · next hplace =>
    rw [if_neg hplace]
    rfl

/-- Where a file is moved, and when this is refused, once both of its paths can be walked. -/
theorem renameFile_of_find {old new : Location} {content : Bytes}
    (hold : t.find p = .ok (old, .file content)) (hnew : t.locate target = .ok new) :
    t.renameFile p target = if target.EndsInName then
        if t.nodeAt new = some .directory then .error ⟨.isDirectory, p, some target⟩
        else .ok ((t.erase old).put new (.file content))
      else .error ⟨.busy, p, some target⟩ := by
  unfold renameFile
  rw [hnew, hold]
  simp only [bind, Except.bind]
  by_cases hname : target.EndsInName
  · rw [if_pos hname, if_pos hname]
    split
    · next h => cases h
    · next hdirectory _ =>
      rw [if_pos hdirectory]
      rfl
    · next hfile hplace =>
      cases hfile
      rw [if_neg hplace]
      rfl
  · rw [if_neg hname, if_neg hname]
    rfl

end LootTables.FileTree
