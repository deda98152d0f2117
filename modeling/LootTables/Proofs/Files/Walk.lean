import LootTables.Files.Tree
import LootTables.Proofs.Result

/-!
# Walks

A walk looks at the directories that it passes and at nothing else: not at what is in a file, and not
at what is at its end. So a walk that arrives somewhere arrives at the same location in every tree
that has these directories, too (`KeepsDirectories.locate`), and one that fails for another reason than
a missing directory fails alike (`KeepsDirectories.locate_eq`). What is put where there is no directory
keeps all of them (`keepsDirectories_put`). `SameNodes` is for trees that differ in nothing but the order
in which they list their places, and `DifferAt` for trees that differ in what is at one place, too.
-/

namespace LootTables.FileTree

theorem nodeAt_root (t : FileTree) : t.nodeAt [] = some .directory := rfl

/-- Where there is no directory, there is not the root either. -/
theorem ne_root {t : FileTree} {l : Location} (h : t.nodeAt l ≠ some .directory) : l ≠ [] := by
  rintro rfl
  exact h t.nodeAt_root

/-- Below the root, what is listed for a location is what is there. -/
theorem mem_entries_iff {t : FileTree} {l : Location} {node : Node} (h : l ≠ []) :
    (l, node) ∈ t.entries ↔ t.nodeAt l = some node := by
  unfold nodeAt
  rw [if_neg h, Assoc.lookup_eq_some_iff_mem t.nodup]

/-! ### Trees with the same directories -/

/-- Every directory of `t` is one of `t'` as well, and so is the working directory. -/
structure KeepsDirectories (t t' : FileTree) : Prop where
  workingDirectory : t'.workingDirectory = t.workingDirectory
  directory : ∀ l, t.nodeAt l = some .directory → t'.nodeAt l = some .directory

namespace KeepsDirectories

variable {t t' : FileTree}

theorem start (h : t.KeepsDirectories t') (p : Path) : t'.start p = t.start p := by
  unfold FileTree.start
  rw [h.workingDirectory]

/-- A walk that does not fail for want of a directory ends alike where there are further ones. -/
theorem locate_eq (h : t.KeepsDirectories t') {p : Path} (hfound : t.locate p ≠ .error .notFound)
    (hdirectory : t.locate p ≠ .error .notDirectory) : t'.locate p = t.locate p := by
  -- By induction on the names that are left: each step looks at one directory only.
  have hwalk : ∀ (names : List Text) (here : Location), names.foldlM t.step here ≠ .error .notFound →
      names.foldlM t.step here ≠ .error .notDirectory →
      names.foldlM t'.step here = names.foldlM t.step here := by
    intro names
    induction names with
    | nil => exact fun here _ _ => rfl
    | cons name names ih =>
      intro here hfound hdirectory
      rw [List.foldlM_cons] at hfound hdirectory ⊢
      rw [List.foldlM_cons]
      have hstep : t'.step here name = t.step here name := by
        unfold step at hfound hdirectory ⊢
        cases hhere : t.nodeAt here with
        | none =>
          rw [hhere] at hfound
          exact absurd rfl hfound
        | some node =>
          cases node with
          | file content =>
            rw [hhere] at hdirectory
            exact absurd rfl hdirectory
          | directory => rw [h.directory here hhere]
      rw [hstep]
      cases hnext : t.step here name with
      | error fault => rfl
      | ok next =>
        rw [hnext] at hfound hdirectory
        exact ih next hfound hdirectory
  unfold FileTree.locate at hfound hdirectory ⊢
  rw [h.start p]
  split_ifs at hfound hdirectory ⊢ with hnul hlength
  · rfl
  · rfl
  · exact hwalk p.parts _ hfound hdirectory

/-- A walk that arrives is not led astray by further directories. -/
theorem locate (h : t.KeepsDirectories t') {p : Path} {l : Location} (hl : t.locate p = .ok l) :
    t'.locate p = .ok l :=
  (h.locate_eq (by simp [hl]) (by simp [hl])).trans hl

theorem locate_nameTooLong (h : t.KeepsDirectories t') {p : Path}
    (hlong : t.locate p = .error .nameTooLong) : t'.locate p = .error .nameTooLong :=
  (h.locate_eq (by simp [hlong]) (by simp [hlong])).trans hlong

theorem trans {t'' : FileTree} (h : t.KeepsDirectories t') (h' : t'.KeepsDirectories t'') :
    t.KeepsDirectories t'' :=
  ⟨h'.workingDirectory.trans h.workingDirectory,
    fun l hl => h'.directory l (h.directory l hl)⟩

end KeepsDirectories

variable {t t' : FileTree} {l : Location}

theorem keepsDirectories_put {node : Node} (h : t.nodeAt l ≠ some .directory) :
    t.KeepsDirectories (t.put l node) := by
  refine ⟨rfl, fun k hk => ?_⟩
  rw [nodeAt_put t node (ne_root h), if_neg, hk]
  rintro rfl
  exact h hk

/-! ### Trees with the same places -/

/-- The trees have the same at every location. -/
structure SameNodes (t t' : FileTree) : Prop where
  workingDirectory : t'.workingDirectory = t.workingDirectory
  node : ∀ l, t'.nodeAt l = t.nodeAt l

theorem SameNodes.refl (t : FileTree) : t.SameNodes t := ⟨rfl, fun _ => rfl⟩

theorem SameNodes.symm (h : t.SameNodes t') : t'.SameNodes t :=
  ⟨h.workingDirectory.symm, fun l => (h.node l).symm⟩

theorem SameNodes.trans {t'' : FileTree} (h : t.SameNodes t') (h' : t'.SameNodes t'') :
    t.SameNodes t'' :=
  ⟨h'.workingDirectory.trans h.workingDirectory, fun l => (h'.node l).trans (h.node l)⟩

theorem SameNodes.keepsDirectories (h : t.SameNodes t') : t.KeepsDirectories t' :=
  ⟨h.workingDirectory, fun l hl => (h.node l).trans hl⟩

/-- The same change leaves the same places. -/
theorem SameNodes.put {node : Node} (h : t.SameNodes t') (hroot : l ≠ []) :
    (t.put l node).SameNodes (t'.put l node) := by
  refine ⟨h.workingDirectory, fun k => ?_⟩
  rw [nodeAt_put t' node hroot, nodeAt_put t node hroot, h.node k]

/-- The last of two changes of a place is the one that counts. -/
theorem sameNodes_put_put (t : FileTree) {node node' : Node} (hroot : l ≠ []) :
    (t.put l node').SameNodes ((t.put l node).put l node') := by
  refine ⟨rfl, fun k => ?_⟩
  rw [nodeAt_put _ node' hroot, nodeAt_put t node hroot, nodeAt_put t node' hroot]
  split_ifs <;> rfl

/-- Nothing that is looked up tells such trees apart. -/
theorem SameNodes.locate (h : t.SameNodes t') (p : Path) : t'.locate p = t.locate p := by
  have hstep : t'.step = t.step := by
    funext here name
    unfold FileTree.step
    rw [h.node here]
  unfold FileTree.locate start
  rw [hstep, h.workingDirectory]

theorem SameNodes.find (h : t.SameNodes t') (p : Path) : t'.find p = t.find p := by
  have hnode : t'.nodeAt = t.nodeAt := funext h.node
  unfold FileTree.find
  rw [h.locate p, hnode]

theorem SameNodes.contentOf (h : t.SameNodes t') (p : Path) : t'.contentOf p = t.contentOf p := by
  unfold FileTree.contentOf
  rw [h.find p]

/-! ### Trees that differ in one place -/

/-- The trees have the same at every location but `l`, where neither has a directory. -/
structure DifferAt (t t' : FileTree) (l : Location) : Prop where
  workingDirectory : t'.workingDirectory = t.workingDirectory
  place : t.nodeAt l ≠ some .directory
  place' : t'.nodeAt l ≠ some .directory
  node : ∀ k, k ≠ l → t'.nodeAt k = t.nodeAt k

namespace DifferAt

theorem symm (h : t.DifferAt t' l) : t'.DifferAt t l :=
  ⟨h.workingDirectory.symm, h.place', h.place, fun k hk => (h.node k hk).symm⟩

theorem keepsDirectories (h : t.DifferAt t' l) : t.KeepsDirectories t' := by
  refine ⟨h.workingDirectory, fun k hk => ?_⟩
  rw [h.node k, hk]
  rintro rfl
  exact h.place hk

end DifferAt

/-! ### Trees with the same files -/

/-- The trees have the same files, and these hold the same. -/
def SameFiles (t t' : FileTree) : Prop :=
  ∀ l bytes, t'.nodeAt l = some (.file bytes) ↔ t.nodeAt l = some (.file bytes)

theorem SameFiles.refl (t : FileTree) : t.SameFiles t := fun _ _ => Iff.rfl

theorem SameFiles.symm (h : t.SameFiles t') : t'.SameFiles t := fun l bytes => (h l bytes).symm

theorem SameFiles.trans {t'' : FileTree} (h : t.SameFiles t') (h' : t'.SameFiles t'') :
    t.SameFiles t'' :=
  fun l bytes => (h' l bytes).trans (h l bytes)

theorem SameNodes.sameFiles (h : t.SameNodes t') : t.SameFiles t' := by
  intro l bytes
  rw [h.node l]

/-! ### Walks, step by step -/

theorem locate_eq_ok_iff {p : Path} :
    t.locate p = .ok l ↔ CodePoint.ofNat 0 ∉ p.text ∧ Utf8.encodedLength p.text ≤ pathLimit ∧
      p.parts.foldlM t.step (t.start p) = .ok l := by
  unfold locate
  split
  · next hnul => simp [hnul]
  · next hnul =>
    split
    · next hlength => simp [Nat.not_le.2 hlength]
    · next hlength => simp [hnul, Nat.not_lt.1 hlength]

/-- A step goes up from a directory, or on to a name in it. -/
theorem step_cases {here next : Location} {name : Text} (h : t.step here name = .ok next) :
    t.nodeAt here = some .directory ∧
      (next = here.dropLast ∨ name ≠ Path.aboveName ∧ next = here ++ [name]) := by
  unfold step at h
  split at h
  · cases h
  · cases h
  · next hhere =>
    refine ⟨hhere, ?_⟩
    split_ifs at h with habove
    · cases h
      exact .inl rfl
    · cases h
      exact .inr ⟨habove, rfl⟩

/-- What holds where a walk starts and is kept by each step holds where it arrives. -/
theorem locate_induction {motive : Location → Prop} {p : Path} (hl : t.locate p = .ok l)
    (start : motive (t.start p))
    (step : ∀ here name next, name ∈ p.parts → t.step here name = .ok next → motive here → motive next) :
    motive l := by
  obtain ⟨-, -, hwalk⟩ := locate_eq_ok_iff.1 hl
  generalize t.start p = here at start hwalk
  generalize p.parts = names at step hwalk
  induction names generalizing here with
  | nil =>
    rw [List.foldlM_nil, pure_eq_ok_iff] at hwalk
    exact hwalk ▸ start
  | cons name names ih =>
    rw [List.foldlM_cons] at hwalk
    obtain ⟨next, hnext, hrest⟩ := bind_eq_ok_iff.1 hwalk
    exact ih next (step here name next List.mem_cons_self hnext start)
      (fun here name next hname => step here name next (List.mem_cons_of_mem _ hname)) hrest

/-- A walk passes directories only, so these lie above the place where it arrives. -/
theorem directory_of_locate {p : Path} (hl : t.locate p = .ok l)
    (hstart : ∀ above name, above ++ [name] <+: t.start p → t.nodeAt above = some .directory) :
    ∀ above name, above ++ [name] <+: l → t.nodeAt above = some .directory := by
  refine locate_induction (motive := fun l => ∀ above name, above ++ [name] <+: l →
    t.nodeAt above = some .directory) hl hstart ?_
  intro here last next _ hnext hhere above name hbegins
  obtain ⟨hdirectory, rfl | ⟨-, rfl⟩⟩ := step_cases hnext
  · exact hhere above name (hbegins.trans (List.dropLast_prefix here))
  · rcases List.prefix_concat_iff.1 hbegins with heq | hbegins
    · obtain ⟨rfl, -⟩ := List.append_inj' heq rfl
      exact hdirectory
    · exact hhere above name hbegins

/-- Only a NUL in the path makes a walk fail for one. -/
theorem locate_eq_nul_iff {p : Path} : t.locate p = .error .nul ↔ CodePoint.ofNat 0 ∈ p.text := by
  have hstep : ∀ here name, t.step here name ≠ .error .nul := by
    intro here name
    unfold step
    split
    · simp
    · simp
    · split_ifs <;> simp
  have hwalk : ∀ (names : List Text) (here : Location), names.foldlM t.step here ≠ .error .nul := by
    intro names
    induction names with
    | nil => exact fun here h => nomatch h
    | cons name names ih =>
      intro here h
      rw [List.foldlM_cons] at h
      rcases bind_eq_error_iff.1 h with h | ⟨next, -, h⟩
      · exact hstep here name h
      · exact ih next h
  unfold locate
  split_ifs with hnul hlong
  · simp [hnul]
  · simp [hnul]
  · simp [hnul, hwalk]

/-! ### Walks without steps up -/

theorem step_eq_ok_iff {here : Location} {name : Text} (hname : name ≠ Path.aboveName) :
    t.step here name = .ok l ↔ t.nodeAt here = some .directory ∧
      Utf8.encodedLength name ≤ nameLimit ∧ l = here ++ [name] := by
  unfold step
  split
  · next hhere => simp [hhere]
  · next hhere => simp [hhere]
  · next hhere =>
    rw [if_neg hname]
    split
    · next hlength => simp [Nat.not_le.2 hlength]
    · next hlength =>
      simp only [hhere, Nat.not_lt.1 hlength, true_and, Except.ok.injEq]
      exact eq_comm

/-- Without a step up, a walk leads to where its names say, through directories. -/
theorem walk_eq_ok_iff {names : List Text} {here : Location} (hnames : Path.aboveName ∉ names) :
    names.foldlM t.step here = .ok l ↔ l = here ++ names ∧
      (∀ name ∈ names, Utf8.encodedLength name ≤ nameLimit) ∧
      ∀ before name, before ++ [name] <+: names → t.nodeAt (here ++ before) = some .directory := by
  induction names generalizing here with
  | nil =>
    rw [List.foldlM_nil, pure_eq_ok_iff]
    simpa using eq_comm
  | cons name names ih =>
    rw [List.mem_cons, not_or] at hnames
    rw [List.foldlM_cons, bind_eq_ok_iff]
    constructor
    · rintro ⟨next, hnext, hrest⟩
      obtain ⟨hhere, hlength, rfl⟩ := (step_eq_ok_iff (Ne.symm hnames.1)).1 hnext
      obtain ⟨rfl, hlengths, hthrough⟩ := (ih hnames.2).1 hrest
      refine ⟨by simp, List.forall_mem_cons.2 ⟨hlength, hlengths⟩, fun before last hbegins => ?_⟩
      cases before with
      | nil => rwa [List.append_nil]
      | cons first before =>
        obtain ⟨rfl, hbefore⟩ := List.cons_prefix_cons.1 hbegins
        have hdirectory := hthrough before last hbefore
        rwa [List.append_assoc] at hdirectory
    · rintro ⟨rfl, hlengths, hthrough⟩
      obtain ⟨hlength, hlengths⟩ := List.forall_mem_cons.1 hlengths
      have hhere : t.nodeAt here = some .directory := by
        have hfirst := hthrough [] name (by simp)
        rwa [List.append_nil] at hfirst
      refine ⟨here ++ [name], (step_eq_ok_iff (Ne.symm hnames.1)).2 ⟨hhere, hlength, rfl⟩, ?_⟩
      refine (ih hnames.2).2 ⟨by simp, hlengths, fun before last hbegins => ?_⟩
      rw [List.append_assoc]
      exact hthrough (name :: before) last (List.cons_prefix_cons.2 ⟨rfl, hbegins⟩)

/-- Through directories, a walk fails only for a name that is too long. -/
theorem walk_eq_error {names : List Text} {here : Location} {fault : FileFault}
    (hnames : Path.aboveName ∉ names)
    (hthrough : ∀ before name, before ++ [name] <+: names → t.nodeAt (here ++ before) = some .directory)
    (h : names.foldlM t.step here = .error fault) : fault = .nameTooLong := by
  induction names generalizing here with
  | nil => cases h
  | cons name names ih =>
    rw [List.mem_cons, not_or] at hnames
    have hhere : t.nodeAt here = some .directory := by
      have hfirst := hthrough [] name (by simp)
      rwa [List.append_nil] at hfirst
    rw [List.foldlM_cons] at h
    unfold step at h
    rw [hhere] at h
    dsimp only at h
    rw [if_neg (Ne.symm hnames.1)] at h
    split at h
    · cases h
      rfl
    · refine ih hnames.2 (fun before last hbegins => ?_) h
      rw [List.append_assoc]
      exact hthrough (name :: before) last (List.cons_prefix_cons.2 ⟨rfl, hbegins⟩)

/-- A path that goes on without a step up leads below where it led before. -/
theorem locate_append {p : Path} {names : List Text} {k : Location} (hl : t.locate p = .ok l)
    (hnames : Path.aboveName ∉ names) (hk : t.locate (p.append names) = .ok k) : k = l ++ names := by
  obtain ⟨-, -, hl⟩ := locate_eq_ok_iff.1 hl
  obtain ⟨-, -, hk⟩ := locate_eq_ok_iff.1 hk
  have hwalk : (p.parts ++ names).foldlM t.step (t.start p) = .ok k := hk
  rw [List.foldlM_append, hl] at hwalk
  exact ((walk_eq_ok_iff hnames).1 hwalk).1

end LootTables.FileTree
