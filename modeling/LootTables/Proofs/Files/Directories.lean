import LootTables.Proofs.Files.Change
import LootTables.Proofs.Files.Run

/-!
# New directories

Making a directory and all that are missing above it adds directories on the way to it and changes
nothing else, also where it stops half way (`makeDirectories_ends`). In a tree in which everything
lies in a directory, the new directories hold nothing but one another (`IsNewDirectory.below`).

What is made for a file lies on the way along its path (`AddsAlong`), the file itself included. So
everything still lies in a directory afterwards (`AddsAlong.isGrounded`).
-/

namespace LootTables

namespace FileTree

/-- The location is a directory of `t'` where nothing is in `t`, and the path `p` leads there or
passes it. -/
structure IsNewDirectory (t t' : FileTree) (p : Path) (l : Location) : Prop where
  absent : t.nodeAt l = none
  directory : t'.nodeAt l = some .directory
  onTheWay : ∃ names, names <+: p.parts ∧ t'.locate ⟨p.anchor, names⟩ = .ok l

/-- The tree `t'` is `t` with new directories on the way along `p`. -/
structure GrowsTowards (t t' : FileTree) (p : Path) : Prop where
  workingDirectory : t'.workingDirectory = t.workingDirectory
  node : ∀ l, t'.nodeAt l = t.nodeAt l ∨ t.IsNewDirectory t' p l

/-- Whatever is in the tree lies in a directory. -/
def IsGrounded (t : FileTree) : Prop :=
  ∀ l name, t.nodeAt (l ++ [name]) ≠ none → t.nodeAt l = some .directory

variable {t t' t'' : FileTree} {p : Path} {l : Location}

theorem IsNewDirectory.of_keepsDirectories (h : t.IsNewDirectory t' p l)
    (keeps : t'.KeepsDirectories t'') : t.IsNewDirectory t'' p l := by
  obtain ⟨names, hnames, hl⟩ := h.onTheWay
  exact ⟨h.absent, keeps.directory l h.directory, names, hnames, keeps.locate hl⟩

/-- New directories take nothing from the files, and add nothing to them. -/
theorem file_iff (h : t'.nodeAt l = t.nodeAt l ∨ t.IsNewDirectory t' p l) (content : Bytes) :
    t'.nodeAt l = some (.file content) ↔ t.nodeAt l = some (.file content) := by
  rcases h with hsame | hnew
  · rw [hsame]
  · simp [hnew.absent, hnew.directory]

theorem SameNodes.isGrounded (h : t.SameNodes t') (grounded : t.IsGrounded) : t'.IsGrounded := by
  intro l name hthere
  rw [h.node] at hthere ⊢
  exact grounded l name hthere

/-- Above anything in a grounded tree there are directories only. -/
theorem IsGrounded.above (grounded : t.IsGrounded) {names : List Text} (hnames : names ≠ [])
    (h : t.nodeAt (l ++ names) ≠ none) : t.nodeAt l = some .directory := by
  induction names generalizing l with
  | nil => exact absurd rfl hnames
  | cons name names ih =>
    refine grounded l name ?_
    rw [List.append_cons] at h
    cases names with
    | nil => simpa using h
    | cons next names => simp [ih (by simp) h]

/-- Above a directory there are directories. -/
theorem IsGrounded.directory_of_append (grounded : t.IsGrounded) {names : List Text}
    (h : t.nodeAt (l ++ names) = some .directory) : t.nodeAt l = some .directory := by
  cases names with
  | nil => rwa [List.append_nil] at h
  | cons name names => exact grounded.above (List.cons_ne_nil name names) (by simp [h])

/-- The way from a directory to anything below it leads through directories. -/
theorem IsGrounded.through (grounded : t.IsGrounded) {names : List Text}
    (h : t.nodeAt (l ++ names) ≠ none) {before : List Text} {name : Text}
    (hbegins : before ++ [name] <+: names) : t.nodeAt (l ++ before) = some .directory := by
  obtain ⟨rest, rfl⟩ := hbegins
  rw [List.append_assoc, ← List.append_assoc] at h
  exact grounded.above (by simp) h

/-- So a walk there arrives, unless its path is none that can be walked. -/
theorem IsGrounded.locate_append_cases (grounded : t.IsGrounded) {names : List Text}
    (hl : t.locate p = .ok l) (hnames : Path.aboveName ∉ names) (h : t.nodeAt (l ++ names) ≠ none) :
    t.locate (p.append names) = .ok (l ++ names) ∨ t.locate (p.append names) = .error .nul ∨
      t.locate (p.append names) = .error .nameTooLong := by
  cases hwalk : t.locate (p.append names) with
  | ok k => exact .inl (congrArg Except.ok (locate_append hl hnames hwalk))
  | error fault =>
    refine .inr ?_
    unfold locate at hwalk
    split_ifs at hwalk
    · cases hwalk
      exact .inl rfl
    · cases hwalk
      exact .inr rfl
    · have hwalk : (p.parts ++ names).foldlM t.step (t.start p) = .error fault := hwalk
      rw [List.foldlM_append, (locate_eq_ok_iff.1 hl).2.2] at hwalk
      exact .inr (congrArg Except.error (walk_eq_error hnames (fun _ _ => grounded.through h) hwalk))

/-- It does not fail for want of a directory. -/
theorem IsGrounded.locate_append_ne (grounded : t.IsGrounded) {names : List Text}
    (hl : t.locate p = .ok l) (hnames : Path.aboveName ∉ names) (h : t.nodeAt (l ++ names) ≠ none) :
    t.locate (p.append names) ≠ .error .notFound ∧ t.locate (p.append names) ≠ .error .notDirectory := by
  rcases grounded.locate_append_cases hl hnames h with hwalk | hwalk | hwalk <;> simp [hwalk]

/-- It is enough to look above the places that are listed. -/
theorem isGrounded_iff :
    t.IsGrounded ↔ ∀ l ∈ Assoc.keys t.entries, t.nodeAt l.dropLast = some .directory := by
  constructor
  · intro grounded l hl
    obtain ⟨⟨k, node⟩, hmem, rfl⟩ := List.mem_map.1 hl
    dsimp only
    rcases List.eq_nil_or_concat k with rfl | ⟨above, name, rfl⟩
    · exact t.nodeAt_root
    · rw [List.concat_eq_append] at hmem ⊢
      rw [List.dropLast_concat]
      refine grounded above name ?_
      rw [(mem_entries_iff (by simp)).1 hmem]
      exact Option.some_ne_none node
  · intro h l name hthere
    obtain ⟨node, hnode⟩ := Option.ne_none_iff_exists'.1 hthere
    have hmem := (mem_entries_iff (by simp)).2 hnode
    have habove := h _ (List.mem_map_of_mem (f := Prod.fst) hmem)
    rwa [List.dropLast_concat] at habove

instance (t : FileTree) : Decidable t.IsGrounded := decidable_of_iff _ isGrounded_iff.symm

namespace GrowsTowards

theorem refl (t : FileTree) (p : Path) : t.GrowsTowards t p := ⟨rfl, fun _ => .inl rfl⟩

theorem keepsDirectories (h : t.GrowsTowards t' p) : t.KeepsDirectories t' := by
  refine ⟨h.workingDirectory, fun l hl => ?_⟩
  rcases h.node l with hsame | hnew
  · exact hsame.trans hl
  · exact hnew.directory

theorem sameFiles (h : t.GrowsTowards t' p) : t.SameFiles t' := fun l => file_iff (h.node l)

theorem congr (h : t.GrowsTowards t' p) (same : t'.SameNodes t'') : t.GrowsTowards t'' p := by
  refine ⟨same.workingDirectory.trans h.workingDirectory, fun l => ?_⟩
  rw [same.node l]
  exact (h.node l).imp_right fun hnew => hnew.of_keepsDirectories same.keepsDirectories

/-- One more directory on the way. -/
theorem put (h : t.GrowsTowards t' p) {names : List Text} (hnames : names <+: p.parts)
    (hl : t'.locate ⟨p.anchor, names⟩ = .ok l) (habsent : t'.nodeAt l = none) :
    t.GrowsTowards (t'.put l .directory) p := by
  have hplace : t'.nodeAt l ≠ some .directory := by simp [habsent]
  have keeps : t'.KeepsDirectories (t'.put l .directory) := keepsDirectories_put hplace
  refine ⟨h.workingDirectory, fun k => ?_⟩
  rw [nodeAt_put t' _ (ne_root hplace)]
  split
  · next hk =>
    subst hk
    -- A place that is empty now was empty before, since what is new is a directory.
    have hold : t.nodeAt k = none := by
      rcases h.node k with hsame | hnew
      · rw [← hsame, habsent]
      · exact hnew.absent
    refine .inr ⟨hold, ?_, names, hnames, keeps.locate hl⟩
    rw [nodeAt_put t' _ (ne_root hplace), if_pos rfl]
  · exact (h.node k).imp_right fun hnew => hnew.of_keepsDirectories keeps

end GrowsTowards

/-! ### What is new along a path -/

/-- What is new in `t'` lies on the way along `p`, or where it leads. -/
structure AddsAlong (t t' : FileTree) (p : Path) : Prop where
  start : t'.start p = t.start p
  directory : ∀ l, t.nodeAt l = some .directory → t'.nodeAt l = some .directory
  onTheWay : ∀ l, t'.nodeAt l ≠ none → t.nodeAt l ≠ none ∨
    ∃ names, names <+: p.parts ∧ t'.locate ⟨p.anchor, names⟩ = .ok l

/-- A tree stays grounded as long as paths start in directories. -/
theorem AddsAlong.isGrounded (h : t.AddsAlong t' p) (grounded : t.IsGrounded)
    (hstart : t.nodeAt (t.start p) = some .directory) : t'.IsGrounded := by
  intro above name hthere
  rcases h.onTheWay _ hthere with hold | ⟨names, -, hl⟩
  · exact h.directory above (grounded above name hold)
  · refine directory_of_locate hl (fun above name hbegins => ?_) above name List.prefix_rfl
    have hbegins : above ++ [name] <+: t.start p := h.start ▸ hbegins
    obtain ⟨rest, hrest⟩ := hbegins
    rw [← hrest, List.append_assoc] at hstart
    exact h.directory above (grounded.directory_of_append hstart)

theorem GrowsTowards.addsAlong (h : t.GrowsTowards t' p) : t.AddsAlong t' p := by
  refine ⟨h.keepsDirectories.start p, h.keepsDirectories.directory, fun l hthere => ?_⟩
  rcases h.node l with hsame | hnew
  · exact .inl (hsame ▸ hthere)
  · exact .inr hnew.onTheWay

theorem DifferAt.addsAlong (h : t.DifferAt t' l) (hl : t.locate p = .ok l) : t.AddsAlong t' p := by
  refine ⟨h.keepsDirectories.start p, h.keepsDirectories.directory, fun k hthere => ?_⟩
  by_cases hk : k = l
  · exact .inr ⟨p.parts, List.prefix_rfl, hk ▸ h.keepsDirectories.locate hl⟩
  · exact .inl (h.node k hk ▸ hthere)

theorem AddsAlong.of_parent (h : t.AddsAlong t' p.parent) : t.AddsAlong t' p := by
  refine ⟨h.start, h.directory, fun l hthere => (h.onTheWay l hthere).imp_right ?_⟩
  rintro ⟨names, hnames, hl⟩
  exact ⟨names, hnames.trans (List.dropLast_prefix _), hl⟩

theorem AddsAlong.trans (h : t.AddsAlong t' p) (h' : t'.AddsAlong t'' p) (keeps : t'.KeepsDirectories t'') :
    t.AddsAlong t'' p := by
  refine ⟨h'.start.trans h.start, fun l hl => h'.directory l (h.directory l hl), fun l hthere => ?_⟩
  rcases h'.onTheWay l hthere with hthere | hnew
  · refine (h.onTheWay l hthere).imp_right ?_
    rintro ⟨names, hnames, hl⟩
    exact ⟨names, hnames, keeps.locate hl⟩
  · exact .inr hnew

/-- What a new directory holds is a new directory itself. -/
theorem IsNewDirectory.below (h : t.IsNewDirectory t' p l) (grows : t.GrowsTowards t' p)
    (grounded : t.IsGrounded) {names : List Text} (hthere : t'.nodeAt (l ++ names) ≠ none) :
    t.IsNewDirectory t' p (l ++ names) := by
  rcases List.eq_nil_or_concat names with rfl | ⟨_, _, hnames⟩
  · rwa [List.append_nil]
  · rcases grows.node (l ++ names) with hsame | hnew
    -- What was there before would have had a directory above it where there is none.
    · rw [hsame] at hthere
      have hold := grounded.above (by simp [hnames]) hthere
      cases h.absent.symm.trans hold
    · exact hnew

end FileTree

/-! ### Making directories -/

theorem mem_neededDirectories {t : FileTree} {anchor : Anchor} {above : List Text} {q : Path}
    (h : q ∈ t.neededDirectories anchor above) : q.anchor = anchor ∧ q.parts <+: above.reverse := by
  induction above with
  | nil =>
    cases List.mem_singleton.1 h
    exact ⟨rfl, List.prefix_rfl⟩
  | cons name above ih =>
    have hlast : ∀ p ∈ [(⟨anchor, (name :: above).reverse⟩ : Path)],
        p.anchor = anchor ∧ p.parts <+: (name :: above).reverse :=
      List.forall_mem_singleton.2 ⟨rfl, List.prefix_rfl⟩
    unfold FileTree.neededDirectories at h
    dsimp only at h
    split at h
    · rcases List.mem_append.1 h with h | h
      · refine ⟨(ih h).1, (ih h).2.trans ?_⟩
        rw [List.reverse_cons]
        exact List.prefix_append _ _
      · exact hlast q h
    · exact hlast q h

/-- Making directories does nothing but make directories on the way, whether it succeeds or not. -/
theorem makeDirectories_ends (t : FileTree) (p : Path) :
    (makeDirectories p).Ends t (fun _ t' => t.GrowsTowards t' p) fun _ t' => t.GrowsTowards t' p := by
  unfold makeDirectories FileTree.directoryActions
  -- Each action makes one directory at most, so the trees in between have grown, too.
  refine FileM.ends_get (ends_perform ?_ (.refl t p))
  intro a ha t₁ t₂ h happly
  obtain ⟨⟨anchor, names⟩, hq, rfl⟩ := List.mem_map.1 ha
  obtain ⟨rfl, hnames⟩ := mem_neededDirectories hq
  rw [List.reverse_reverse] at hnames
  rcases FileTree.ensureDirectory_cases happly with rfl | ⟨l, hl, habsent, rfl⟩
  · exact h
  · exact h.put hnames hl habsent

/-! ### The directory that was to be made -/

namespace FileTree

variable {t t' : FileTree} {p : Path} {l : Location}

theorem find?_eq_some_iff {found : Location × Node} :
    t.find? p = .ok (some found) ↔ t.find p = .ok found := by
  unfold find?
  split
  · next found' h => simp [h]
  · next h => simp [h]
  · next fault _ h => simp [h]

theorem fileOrDirectoryExists_eq_ok_iff {there : Bool} : t.fileOrDirectoryExists p = .ok there ↔
    t.find p ≠ .error .nameTooLong ∧ (there = true ↔ ∃ found, t.find p = .ok found) := by
  unfold fileOrDirectoryExists find?
  cases hfind : t.find p with
  | ok found => cases there <;> simp [bind, Except.bind, pure, Except.pure]
  | error fault => cases fault <;> cases there <;> simp [bind, Except.bind, pure, Except.pure]

theorem fileOrDirectoryExists_eq_error_iff {e : FileError} : t.fileOrDirectoryExists p = .error e ↔
    t.find p = .error .nameTooLong ∧ e = ⟨.nameTooLong, p, none⟩ := by
  unfold fileOrDirectoryExists find?
  cases hfind : t.find p with
  | ok found => simp [bind, Except.bind, pure, Except.pure]
  | error fault => cases fault <;> simp [bind, Except.bind, pure, Except.pure, eq_comm]

theorem directoryExists_eq_true_iff :
    t.directoryExists p = .ok true ↔ ∃ l, t.find p = .ok (l, .directory) := by
  unfold directoryExists
  rw [bind_eq_ok_iff]
  constructor
  · rintro ⟨found, hfound, h⟩
    split at h
    · next l => exact ⟨l, find?_eq_some_iff.1 hfound⟩
    · cases h
  · rintro ⟨l, h⟩
    exact ⟨some (l, .directory), find?_eq_some_iff.2 h, rfl⟩

theorem makeDirectory_of_directory (h : t.find p = .ok (l, .directory)) :
    t.makeDirectory p = refuse p .alreadyExists := by
  obtain ⟨hl, hdirectory⟩ := find_eq_ok_iff.1 h
  unfold makeDirectory
  simp only [hl, hdirectory, walking, Except.mapError, bind, Except.bind]

/-- A directory that is there is left as it is. -/
theorem ensureDirectory_of_directory (h : t.find p = .ok (l, .directory)) :
    t.ensureDirectory p = .ok t := by
  unfold ensureDirectory
  rw [makeDirectory_of_directory h]
  refine bind_eq_ok_iff.2 ⟨true, directoryExists_eq_true_iff.2 ⟨l, h⟩, ?_⟩
  rw [if_pos ⟨FileFault.noConfusion, rfl⟩]
  rfl

theorem find_of_ensureDirectory (h : t.ensureDirectory p = .ok t') :
    ∃ l, t'.find p = .ok (l, .directory) := by
  unfold ensureDirectory at h
  split at h
  · next made hmade =>
    cases h
    obtain ⟨l, hl, habsent, rfl⟩ := makeDirectory_eq_ok_iff.1 hmade
    have hplace : t.nodeAt l ≠ some .directory := by simp [habsent]
    refine ⟨l, find_eq_ok_iff.2 ⟨(keepsDirectories_put hplace).locate hl, ?_⟩⟩
    rw [nodeAt_put t _ (ne_root hplace), if_pos rfl]
  · next e he =>
    obtain ⟨isThere, hthere, h⟩ := bind_eq_ok_iff.1 h
    split at h
    · next hdirectory =>
      cases h
      exact directoryExists_eq_true_iff.1 (hdirectory.2 ▸ hthere)
    · cases h

end FileTree

theorem neededDirectories_eq_concat (t : FileTree) (anchor : Anchor) (above : List Text) :
    ∃ before, t.neededDirectories anchor above = before ++ [⟨anchor, above.reverse⟩] := by
  cases above with
  | nil => exact ⟨[], rfl⟩
  | cons name above =>
    unfold FileTree.neededDirectories
    dsimp only
    split
    · exact ⟨_, rfl⟩
    · exact ⟨[], rfl⟩

/-- When making a directory succeeds, there is one. -/
theorem makeDirectories_directory (t : FileTree) (p : Path) :
    (makeDirectories p).Ends t (fun _ t' => ∃ l, t'.find p = .ok (l, .directory)) fun _ _ => True := by
  obtain ⟨before, hbefore⟩ := neededDirectories_eq_concat t p.anchor p.parts.reverse
  rw [List.reverse_reverse] at hbefore
  unfold makeDirectories FileTree.directoryActions
  refine FileM.ends_get ?_
  rw [hbefore, List.map_append, perform_append]
  -- Only the last action counts.
  refine (FileM.ends_trivial _ t).bind fun _ t₁ _ => ?_
  exact ends_perform_cons (fun t₂ h => ends_perform_nil (FileTree.find_of_ensureDirectory h))
    fun _ _ => trivial

/-- Making a directory that is there changes nothing. -/
theorem makeDirectories_of_directory {t : FileTree} {p : Path} {l : Location}
    (h : t.find p = .ok (l, .directory)) :
    (makeDirectories p).Ends t (fun _ t' => t' = t) fun _ _ => False := by
  obtain ⟨anchor, parts⟩ := p
  have hneeded : ∀ above : List Text, above.reverse = parts →
      t.neededDirectories anchor above = [⟨anchor, parts⟩] := by
    rintro above rfl
    cases above with
    | nil => rfl
    | cons name above =>
      unfold FileTree.neededDirectories
      dsimp only
      rw [FileTree.makeDirectory_of_directory h]
      rfl
  unfold makeDirectories FileTree.directoryActions
  refine FileM.ends_get ?_
  rw [hneeded parts.reverse parts.reverse_reverse]
  exact ends_perform_of_ok (FileTree.ensureDirectory_of_directory h) (ends_perform_nil rfl)

end LootTables
