import LootTables.Proofs.Command.Invocation
import LootTables.Proofs.Files.PathText
import LootTables.Proofs.Output.Rerun

/-!
# What is shown after a write

The command line in a comment shows a value by its last name if it is the path of something. So what it
shows depends on the tree, and a run may change that by what it writes (`StoresAt`): a value that was the
path of nothing can be the path of the output afterwards, or of a directory above it. The output itself is
such a value when it is new (`Invocation.commandLine_ne_of_fresh`). When it is not, nothing changes
(`Invocation.commandLine_of_differAt`), and in any case nothing is shown that was not shown before
(`Invocation.subset_commandLine`).
-/

namespace LootTables

namespace FileTree

variable {t t' t₁ : FileTree} {p : Path} {l k : Location} {node : Node} {text : Text}

/-! ### The tree after a write -/

/-- The tree `t₁` is `t` with a file at `l`, where no directory was, and maybe new directories. -/
structure StoresAt (t t₁ : FileTree) (l : Location) : Prop where
  keeps : t.KeepsDirectories t₁
  place : t.nodeAt l ≠ some .directory
  file : ∃ bytes, t₁.nodeAt l = some (.file bytes)
  node : ∀ k, k ≠ l → t.nodeAt k ≠ none → t₁.nodeAt k = t.nodeAt k

theorem storesAt_of_receives (hmake : makeParent p t = .ok () t') (h : t'.Receives t₁ p text) :
    ∃ l, t₁.locate p = .ok l ∧ t.StoresAt t₁ l := by
  have grows := (FileM.ends_iff.1 (makeParent_ends p t)).1 () t' hmake
  obtain ⟨bytes, l, -, hl, hplace, hput⟩ := id h
  obtain ⟨l', hl', differ⟩ := h.differAt
  cases hl.symm.trans hl'
  refine ⟨l, differ.keepsDirectories.locate hl, ?_, ?_, ⟨bytes, ?_⟩, fun k hk hthere => ?_⟩
  · exact grows.keepsDirectories.trans differ.keepsDirectories
  · exact fun hdirectory => hplace (grows.keepsDirectories.directory l hdirectory)
  · rw [hput.node l, nodeAt_put t' _ (ne_root hplace), if_pos rfl]
  · rw [differ.node k hk]
    exact (grows.node k).resolve_right fun hnew => hthere hnew.absent

namespace StoresAt

/-- What is found before is found after, and it is a directory after if it was one before. -/
theorem find (h : t.StoresAt t₁ l) (hfind : t.find p = .ok (k, node)) :
    ∃ node', t₁.find p = .ok (k, node') ∧ (node' = .directory ↔ node = .directory) := by
  obtain ⟨hk, hnode⟩ := find_eq_ok_iff.1 hfind
  have hk₁ := h.keeps.locate hk
  by_cases hkl : k = l
  · subst hkl
    obtain ⟨bytes, hfile⟩ := h.file
    refine ⟨_, find_eq_ok_iff.2 ⟨hk₁, hfile⟩, iff_of_false nofun ?_⟩
    rintro rfl
    exact h.place hnode
  · exact ⟨node, find_eq_ok_iff.2 ⟨hk₁, (h.node k hkl (by simp [hnode])).trans hnode⟩, Iff.rfl⟩

/-- Another file holds what it held before. -/
theorem contentOf (h : t.StoresAt t₁ l) (hne : t₁.locate p ≠ .ok l) {bytes : Bytes}
    (hcontent : t.contentOf p = .ok bytes) : t₁.contentOf p = .ok bytes := by
  obtain ⟨k, hk, hfile⟩ := contentOf_eq_ok_iff.1 hcontent
  have hk₁ := h.keeps.locate hk
  have hkl : k ≠ l := by
    rintro rfl
    exact hne hk₁
  exact contentOf_eq_ok_iff.2 ⟨k, hk₁, (h.node k hkl (by simp [hfile])).trans hfile⟩

end StoresAt

/-! ### What exists -/

/-- What is found where there is a file or not is found where there is one. -/
theorem DifferAt.exists_find (h : t.DifferAt t₁ l) (hthere : t₁.nodeAt l ≠ none)
    (hfind : ∃ found, t.find p = .ok found) : ∃ found, t₁.find p = .ok found := by
  obtain ⟨⟨k, node⟩, hfind⟩ := hfind
  obtain ⟨hk, hnode⟩ := find_eq_ok_iff.1 hfind
  have hk₁ := h.keepsDirectories.locate hk
  by_cases hkl : k = l
  · obtain ⟨node', hnode'⟩ := Option.ne_none_iff_exists'.1 hthere
    exact ⟨_, find_eq_ok_iff.2 ⟨hk₁, hkl ▸ hnode'⟩⟩
  · exact ⟨_, find_eq_ok_iff.2 ⟨hk₁, (h.node k hkl).trans hnode⟩⟩

/-- A name that is too long is so whatever a file holds. -/
theorem DifferAt.find_eq_nameTooLong (h : t.DifferAt t₁ l) (hlong : t.find p = .error .nameTooLong) :
    t₁.find p = .error .nameTooLong := by
  rw [find_eq_nameTooLong_iff] at hlong ⊢
  exact (h.keepsDirectories.locate_eq (by simp [hlong]) (by simp [hlong])).trans hlong

/-- Trees that differ in the content of a file agree on what exists. -/
theorem DifferAt.fileOrDirectoryExists (h : t.DifferAt t₁ l) (hthere : t.nodeAt l ≠ none)
    (hthere₁ : t₁.nodeAt l ≠ none) (p : Path) :
    t₁.fileOrDirectoryExists p = t.fileOrDirectoryExists p := by
  cases hexists : t.fileOrDirectoryExists p with
  | ok there =>
    obtain ⟨hlong, hthere'⟩ := fileOrDirectoryExists_eq_ok_iff.1 hexists
    refine fileOrDirectoryExists_eq_ok_iff.2 ⟨mt h.symm.find_eq_nameTooLong hlong, hthere'.trans ?_⟩
    exact ⟨h.exists_find hthere₁, h.symm.exists_find hthere⟩
  | error e =>
    obtain ⟨hlong, rfl⟩ := fileOrDirectoryExists_eq_error_iff.1 hexists
    exact fileOrDirectoryExists_eq_error_iff.2 ⟨h.find_eq_nameTooLong hlong, rfl⟩

end FileTree

/-! ### Shown values -/

section

variable {t t₁ : FileTree} {l : Location} {i : Invocation} {value word word₁ line line₁ : Text}

theorem displayed_eq_ok_iff : displayed t value = .ok word ↔
    ∃ there, t.fileOrDirectoryExists (.ofText value) = .ok there ∧
      word = if there then (Path.ofText value).name else value := by
  unfold displayed
  rw [bind_eq_ok_iff]
  refine exists_congr fun there => and_congr_right fun _ => ?_
  rw [pure_eq_ok_iff]
  exact eq_comm

theorem subset_of_mem_split {c : CodePoint} {s : Text} : ∀ piece ∈ Text.split c s, piece ⊆ s := by
  induction s with
  | nil => simp [Text.split]
  | cons d s ih =>
    have hrest : ∀ piece ∈ Text.split c s, piece ⊆ d :: s := fun piece hpiece =>
      List.subset_cons_of_subset d (ih piece hpiece)
    rw [Text.split]
    split
    · exact List.forall_mem_cons.2 ⟨List.nil_subset _, hrest⟩
    · split
      · simp
      · next piece pieces hsplit =>
        rw [hsplit] at hrest
        obtain ⟨hpiece, hpieces⟩ := List.forall_mem_cons.1 hrest
        exact List.forall_mem_cons.2 ⟨List.cons_subset.2 ⟨List.mem_cons_self, hpiece⟩, hpieces⟩

/-- The last name of a path is part of it as it was written. -/
theorem name_ofText_subset (value : Text) : (Path.ofText value).name ⊆ value := by
  unfold Path.name
  cases hlast : (Path.ofText value).parts.getLast? with
  | none => exact List.nil_subset _
  | some name =>
    have hname : name ∈ Path.partsOf value := List.mem_of_getLast? hlast
    exact subset_of_mem_split name (List.mem_of_mem_filter hname)

/-- After a write a value is shown as before or shortened. -/
theorem displayed_subset (h : t.StoresAt t₁ l) (hword : displayed t value = .ok word)
    (hword₁ : displayed t₁ value = .ok word₁) : word₁ ⊆ word := by
  obtain ⟨there, hexists, rfl⟩ := displayed_eq_ok_iff.1 hword
  obtain ⟨there₁, hexists₁, rfl⟩ := displayed_eq_ok_iff.1 hword₁
  obtain ⟨-, hfound⟩ := FileTree.fileOrDirectoryExists_eq_ok_iff.1 hexists
  obtain ⟨-, hfound₁⟩ := FileTree.fileOrDirectoryExists_eq_ok_iff.1 hexists₁
  cases there with
  | true =>
    obtain ⟨⟨k, node⟩, hfind⟩ := hfound.1 rfl
    obtain ⟨node', hfind', -⟩ := h.find hfind
    rw [hfound₁.2 ⟨_, hfind'⟩]
    exact List.Subset.refl _
  | false =>
    cases there₁ with
    | true => exact name_ofText_subset value
    | false => exact List.Subset.refl _

namespace Invocation

theorem afterBlanks_append (words words' : List Text) :
    afterBlanks (words ++ words') = afterBlanks words ++ afterBlanks words' := List.flatMap_append

theorem valueWords_subset {v : Shown} {ws ws₁ : List Text} (h : t.StoresAt t₁ l)
    (hws : valueWords t v = .ok ws) (hws₁ : valueWords t₁ v = .ok ws₁) :
    afterBlanks ws₁ ⊆ afterBlanks ws := by
  obtain ⟨word, hword, hpure⟩ := bind_eq_ok_iff.1 hws
  obtain ⟨word₁, hword₁, hpure₁⟩ := bind_eq_ok_iff.1 hws₁
  obtain rfl := pure_eq_ok_iff.1 hpure
  obtain rfl := pure_eq_ok_iff.1 hpure₁
  have hshorter : afterBlanks [word₁] ⊆ afterBlanks [word] := by
    unfold afterBlanks
    rw [List.flatMap_singleton, List.flatMap_singleton]
    exact List.append_subset.2 ⟨List.subset_append_left _ _,
      List.subset_append_of_subset_right _ (displayed_subset h hword hword₁)⟩
  rw [afterBlanks_append, afterBlanks_append]
  exact List.append_subset.2 ⟨List.subset_append_left _ _,
    List.subset_append_of_subset_right _ hshorter⟩

theorem mapM_valueWords_subset (h : t.StoresAt t₁ l) {vs : List Shown} {pieces pieces₁ : List (List Text)}
    (hpieces : List.Forall₂ (fun v ws => valueWords t v = .ok ws) vs pieces)
    (hpieces₁ : List.Forall₂ (fun v ws => valueWords t₁ v = .ok ws) vs pieces₁) :
    afterBlanks pieces₁.flatten ⊆ afterBlanks pieces.flatten := by
  induction hpieces generalizing pieces₁ with
  | nil =>
    cases hpieces₁
    exact List.Subset.refl _
  | @cons v ws vs pieces hws _ ih =>
    cases hpieces₁ with
    | cons hws₁ hrest₁ =>
      rw [List.flatten_cons, List.flatten_cons, afterBlanks_append, afterBlanks_append]
      exact List.append_subset.2 ⟨List.subset_append_of_subset_left _ (valueWords_subset h hws hws₁),
        List.subset_append_of_subset_right _ (ih hrest₁)⟩

/-- After a write nothing is shown that was not shown before. -/
theorem subset_commandLine (h : t.StoresAt t₁ l) (hline : i.commandLine t = .ok line)
    (hline₁ : i.commandLine t₁ = .ok line₁) : line₁ ⊆ line := by
  obtain ⟨pieces, hpieces, rfl⟩ := commandLine_eq_ok_iff.1 hline
  obtain ⟨pieces₁, hpieces₁, rfl⟩ := commandLine_eq_ok_iff.1 hline₁
  have hwords := mapM_valueWords_subset h (mapM_eq_ok_iff.1 hpieces) (mapM_eq_ok_iff.1 hpieces₁)
  have hvalues : Generator.programName ++ afterBlanks pieces₁.flatten ⊆
      Generator.programName ++ afterBlanks pieces.flatten :=
    List.append_subset.2 ⟨List.subset_append_left _ _, List.subset_append_of_subset_right _ hwords⟩
  exact List.append_subset.2 ⟨List.subset_append_of_subset_left _ hvalues, List.subset_append_right _ _⟩

/-- The two paths come first. -/
theorem commandLine_begins (hline : i.commandLine t = .ok line) : ∃ source output rest,
    displayed t i.source.text = .ok source ∧ displayed t i.output.text = .ok output ∧
      line = Generator.programName ++ " " ++ source ++ " " ++ (output ++ afterBlanks rest) := by
  obtain ⟨pieces, hpieces, rfl⟩ := commandLine_eq_ok_iff.1 hline
  obtain ⟨source, output, config, className, packageName, hsource, houtput, -, -, -, rfl⟩ :=
    mapM_values_eq_ok_iff.1 hpieces
  refine ⟨source, output, (config ++ (className ++ packageName)).flatten ++ switchWords i.arguments, hsource,
    houtput, ?_⟩
  simp [afterBlanks]

/-- What follows a path in the line does not go on with it. -/
theorem head?_append_afterBlanks_ne {s : Text} (hs : Path.slash ∉ s) (rest : List Text) :
    (s ++ afterBlanks rest).head? ≠ some Path.slash := by
  cases s with
  | nil =>
    cases rest with
    | nil => exact nofun
    | cons word rest =>
      intro h
      exact absurd (Option.some.inj h) (by decide)
  | cons c s =>
    intro h
    exact hs (List.mem_cons.2 (.inl (Option.some.inj h).symm))

theorem slash_notMem_name {p : Path} (hp : p.IsPlain) : Path.slash ∉ p.name := by
  unfold Path.name
  cases hlast : p.parts.getLast? with
  | none => exact List.not_mem_nil
  | some name => exact (hp name (List.mem_of_getLast? hlast)).noSlash

/-- The text of a path from the root begins with a slash. -/
theorem text_eq_slash_cons {p : Path} (hp : p.anchor = .root) : ∃ s, p.text = Path.slash :: s := by
  refine ⟨Text.join "/" p.parts, ?_⟩
  unfold Path.text
  rw [hp]
  rfl

/-- A new output is shown as it was given, and by its last name once it is there. -/
theorem commandLine_ne_of_fresh (hroot : i.output.anchor = .root) (hplain : i.output.IsPlain)
    (hsource : displayed t₁ i.source.text = displayed t i.source.text)
    (hfresh : ∀ found, t.find i.output ≠ .ok found) (hfound : ∃ found, t₁.find i.output = .ok found)
    (hline : i.commandLine t = .ok line) (hline₁ : i.commandLine t₁ = .ok line₁) : line ≠ line₁ := by
  obtain ⟨source, output, rest, hshown, houtput, rfl⟩ := commandLine_begins hline
  obtain ⟨source₁, output₁, rest₁, hshown₁, houtput₁, rfl⟩ := commandLine_begins hline₁
  cases (hsource.trans hshown).symm.trans hshown₁
  obtain ⟨there, hexists, rfl⟩ := displayed_eq_ok_iff.1 houtput
  obtain ⟨there₁, hexists₁, rfl⟩ := displayed_eq_ok_iff.1 houtput₁
  rw [Path.ofText_text hplain] at hexists hexists₁ ⊢
  rw [(FileTree.fileOrDirectoryExists_eq_ok_iff.1 hexists₁).2.2 hfound, if_pos rfl]
  have hno : there = false := by
    by_contra hthere
    obtain ⟨found, hfind⟩ :=
      (FileTree.fileOrDirectoryExists_eq_ok_iff.1 hexists).2.1 (Bool.eq_true_of_not_eq_false hthere)
    exact hfresh found hfind
  rw [hno, if_neg Bool.false_ne_true]
  intro heq
  have hrest := List.append_cancel_left heq
  obtain ⟨s, hs⟩ := text_eq_slash_cons hroot
  refine head?_append_afterBlanks_ne (slash_notMem_name hplain) rest₁ ?_
  rw [← hrest, hs]
  rfl

/-- Where the output is a file before and after, the same command line is shown. -/
theorem commandLine_of_differAt (h : t.DifferAt t₁ l) (hthere : t.nodeAt l ≠ none)
    (hthere₁ : t₁.nodeAt l ≠ none) (i : Invocation) : i.commandLine t₁ = i.commandLine t := by
  have hdisplayed : displayed t₁ = displayed t := by
    funext value
    unfold displayed
    dsimp only
    rw [h.fileOrDirectoryExists hthere hthere₁]
  have hoption : displayedOption t₁ = displayedOption t := by
    funext o value
    unfold displayedOption
    rw [hdisplayed]
  unfold commandLine
  rw [hdisplayed, hoption]

end Invocation

end

end LootTables
