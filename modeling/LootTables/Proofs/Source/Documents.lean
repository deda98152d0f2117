import LootTables.Source
import LootTables.Proofs.Files.Change
import LootTables.Proofs.Text.Cut
import Mathlib.Data.List.Sort

/-!
# The documents below a directory

The documents below a directory are sorted by their paths as texts. A tree whose names can be names
of files has no two documents with the same such text, because a text falls into its names at the
slashes (`relativeText_injective`). So the order is strict (`discovered_pairwise`), and there is only
one list in this order with these documents: it does not matter how the tree lists them
(`SameNodes.discovered`), nor what else is in it (`discovered_congr`).
-/

namespace LootTables

/-! ### Names of files -/

/-- A name that a file or a directory can have. -/
structure IsFileName (name : Text) : Prop where
  noSlash : Path.slash ∉ name
  noNul : CodePoint.ofNat 0 ∉ name
  ne_nil : name ≠ []
  ne_selfName : name ≠ Path.selfName
  ne_aboveName : name ≠ Path.aboveName

instance (name : Text) : Decidable (IsFileName name) :=
  decidable_of_iff (Path.slash ∉ name ∧ CodePoint.ofNat 0 ∉ name ∧ name ≠ [] ∧
      name ≠ Path.selfName ∧ name ≠ Path.aboveName)
    ⟨fun ⟨h₁, h₂, h₃, h₄, h₅⟩ => ⟨h₁, h₂, h₃, h₄, h₅⟩,
      fun ⟨h₁, h₂, h₃, h₄, h₅⟩ => ⟨h₁, h₂, h₃, h₄, h₅⟩⟩

/-- All places in the tree have names that files can have. -/
def FileTree.HasFileNames (t : FileTree) : Prop :=
  ∀ l ∈ Assoc.keys t.entries, ∀ name ∈ l, IsFileName name

instance (t : FileTree) : Decidable t.HasFileNames :=
  inferInstanceAs (Decidable (∀ l ∈ Assoc.keys t.entries, ∀ name ∈ l, IsFileName name))

/-! ### The order of texts -/

namespace Text

theorem le_total (a b : Text) : le a b ∨ le b a := by
  unfold le
  rw [decide_eq_true_iff, decide_eq_true_iff]
  exact List.le_total _ _

theorem le_trans {a b c : Text} (hab : le a b) (hbc : le b c) : le a c := by
  unfold le at *
  rw [decide_eq_true_iff] at *
  exact List.le_trans hab hbc

theorem le_antisymm {a b : Text} (hab : le a b) (hba : le b a) : a = b := by
  unfold le at *
  rw [decide_eq_true_iff] at *
  have hvals := List.le_antisymm hab hba
  exact (List.map_inj_right fun _ _ h => CodePoint.ext h).1 hvals

end Text

theorem relativeText_injective {a b : List Text} (ha : ∀ name ∈ a, IsFileName name)
    (hb : ∀ name ∈ b, IsFileName name) (hane : a ≠ []) (hbne : b ≠ [])
    (h : relativeText a = relativeText b) : a = b := by
  have hsplit := congrArg (Text.split Path.slash) h
  have hslash : (("/" : String) : Text) = [Path.slash] := rfl
  unfold relativeText at hsplit
  rw [hslash, Text.split_join (fun name hname => (ha name hname).noSlash) hane,
    Text.split_join (fun name hname => (hb name hname).noSlash) hbne] at hsplit
  exact hsplit

/-! ### Documents below a directory -/

/-- The documents below a location, each with the names that lead there from it. -/
def FileTree.documentsBelow (t : FileTree) (l : Location) : List (List Text) :=
  (t.below l).filterMap fun (names, node) =>
    match node with
    | .file _ => if isDocumentName names then some names else none
    | .directory => none

namespace FileTree

variable {t t' : FileTree} {l : Location} {names : List Text} {allowed : Nat → Bool}

/-- Wherever there is anything, it has names that files can have. -/
theorem hasFileNames_iff :
    t.HasFileNames ↔ ∀ l, t.nodeAt l ≠ none → ∀ name ∈ l, IsFileName name := by
  constructor
  · intro h l hl name hname
    obtain ⟨node, hnode⟩ := Option.ne_none_iff_exists'.1 hl
    have hmem := (mem_entries_iff (List.ne_nil_of_mem hname)).2 hnode
    exact h l (List.mem_map_of_mem (f := Prod.fst) hmem) name hname
  · intro h l hl name hname
    obtain ⟨⟨_, node⟩, hmem, rfl⟩ := List.mem_map.1 hl
    refine h _ ?_ name hname
    rw [(mem_entries_iff (List.ne_nil_of_mem hname)).1 hmem]
    exact Option.some_ne_none node

theorem SameNodes.hasFileNames (h : t.SameNodes t') (hnames : t.HasFileNames) : t'.HasFileNames :=
  hasFileNames_iff.2 fun l hl => hasFileNames_iff.1 hnames l (h.node l ▸ hl)

/-- What one entry contributes to what lies below a location. -/
theorem below_entry_iff {entry : Location × Node} {found : List Text × Node} :
    (match l.isPrefixOf? entry.1 with
      | none | some [] => none
      | some names => some (names, entry.2)) = some found ↔
      found.1 ≠ [] ∧ entry = (l ++ found.1, found.2) := by
  obtain ⟨k, node⟩ := entry
  constructor
  · intro h
    split at h
    · cases h
    · cases h
    · next names hne hbegins =>
      cases h
      obtain rfl := List.isPrefixOf?_eq_some_iff_append_eq.1 hbegins
      exact ⟨hne, rfl⟩
  · rintro ⟨hnames, h⟩
    obtain ⟨rfl, rfl⟩ := Prod.mk.inj h
    have hbegins : l.isPrefixOf? (l ++ found.1) = some found.1 :=
      List.isPrefixOf?_eq_some_iff_append_eq.2 rfl
    split
    · next hnone => cases hbegins.symm.trans hnone
    · next hnil => exact absurd (Option.some.inj (hbegins.symm.trans hnil)) hnames
    · next names _ hnames => rw [Option.some.inj (hnames.symm.trans hbegins)]

theorem mem_below_iff {node : Node} :
    (names, node) ∈ t.below l ↔ names ≠ [] ∧ t.nodeAt (l ++ names) = some node := by
  unfold below
  rw [List.mem_filterMap]
  constructor
  · rintro ⟨entry, hmem, h⟩
    obtain ⟨hnames, rfl⟩ := below_entry_iff.1 h
    exact ⟨hnames, (mem_entries_iff (by simp [hnames])).1 hmem⟩
  · rintro ⟨hnames, h⟩
    exact ⟨(l ++ names, node), (mem_entries_iff (by simp [hnames])).2 h,
      below_entry_iff.2 ⟨hnames, rfl⟩⟩

/-- What one place contributes to the documents below a location. -/
theorem documentsBelow_entry_iff {place : List Text} {node : Node} :
    (match node with
      | .file _ => if isDocumentName place then some place else none
      | .directory => none) = some names ↔
      place = names ∧ isDocumentName names ∧ ∃ content, node = .file content := by
  cases node with
  | directory => simp
  | file content =>
    dsimp only
    split
    · next hname =>
      rw [Option.some.injEq]
      exact ⟨fun h => ⟨h, h ▸ hname, content, rfl⟩, fun h => h.1⟩
    · next hname =>
      constructor
      · intro h
        cases h
      · rintro ⟨rfl, h, -⟩
        exact absurd h hname

theorem mem_documentsBelow_iff :
    names ∈ t.documentsBelow l ↔
      isDocumentName names ∧ ∃ content, t.nodeAt (l ++ names) = some (.file content) := by
  unfold documentsBelow
  rw [List.mem_filterMap]
  constructor
  · rintro ⟨⟨place, node⟩, hmem, h⟩
    obtain ⟨rfl, hname, content, hnode⟩ := documentsBelow_entry_iff.1 h
    obtain ⟨-, hplace⟩ := mem_below_iff.1 hmem
    exact ⟨hname, content, hnode ▸ hplace⟩
  · rintro ⟨hname, content, hnode⟩
    have hnames : names ≠ [] := by
      rintro rfl
      exact absurd hname (by decide)
    exact ⟨(names, .file content), mem_below_iff.2 ⟨hnames, hnode⟩,
      documentsBelow_entry_iff.2 ⟨rfl, hname, content, rfl⟩⟩

/-- Nothing is found twice below a location, since no location is listed twice. -/
theorem pairwise_below : (t.below l).Pairwise fun a b => a.1 ≠ b.1 := by
  have hentries : t.entries.Pairwise fun a b => a.1 ≠ b.1 := List.pairwise_map.1 t.nodup
  refine hentries.filterMap _ fun a b hab found hfound found' hfound' hsame => hab ?_
  rw [(below_entry_iff.1 hfound).2, (below_entry_iff.1 hfound').2, hsame]

theorem nodup_documentsBelow : (t.documentsBelow l).Nodup := by
  refine pairwise_below.filterMap _ fun a b hab names hnames names' hnames' hsame => hab ?_
  rw [(documentsBelow_entry_iff.1 hnames).1, (documentsBelow_entry_iff.1 hnames').1, hsame]

/-- The documents below a location, as far as their depth is allowed, in the order of sources. -/
def discovered (t : FileTree) (l : Location) (allowed : Nat → Bool) : List (List Text) :=
  ((t.documentsBelow l).filter fun names => allowed names.length).mergeSort sourceOrder

theorem mem_discovered_iff :
    names ∈ t.discovered l allowed ↔ isDocumentName names ∧ allowed names.length ∧
      ∃ content, t.nodeAt (l ++ names) = some (.file content) := by
  unfold discovered
  rw [List.mem_mergeSort, List.mem_filter, mem_documentsBelow_iff]
  tauto

theorem nodup_discovered : (t.discovered l allowed).Nodup :=
  List.nodup_mergeSort.2 (nodup_documentsBelow.filter _)

/-- A document that is found has names that files can have, and not none. -/
theorem fileNames_of_mem_discovered (h : t.HasFileNames) (hnames : names ∈ t.discovered l allowed) :
    names ≠ [] ∧ ∀ name ∈ names, IsFileName name := by
  obtain ⟨hname, -, content, hnode⟩ := mem_discovered_iff.1 hnames
  have hne : names ≠ [] := by
    rintro rfl
    exact absurd hname (by decide)
  refine ⟨hne, fun name hmem => ?_⟩
  refine hasFileNames_iff.1 h (l ++ names) ?_ name (List.mem_append_right l hmem)
  rw [hnode]
  exact Option.some_ne_none _

/-- Whatever is brought into the order of sources is in this order. -/
theorem sorted_mergeSort (files : List (List Text)) :
    (files.mergeSort sourceOrder).Pairwise fun a b => sourceOrder a b := by
  refine List.pairwise_mergeSort (fun a b c => ?_) (fun a b => ?_) _
  · exact Text.le_trans
  · rw [Bool.or_eq_true]
    exact Text.le_total _ _

theorem discovered_sorted : (t.discovered l allowed).Pairwise fun a b => sourceOrder a b :=
  sorted_mergeSort _

/-- Different documents that are found have different paths. -/
theorem eq_of_mem_discovered (h : t.HasFileNames) {a b : List Text} (ha : a ∈ t.discovered l allowed)
    (hb : b ∈ t.discovered l allowed) (htext : relativeText a = relativeText b) : a = b := by
  obtain ⟨hane, ha⟩ := fileNames_of_mem_discovered h ha
  obtain ⟨hbne, hb⟩ := fileNames_of_mem_discovered h hb
  exact relativeText_injective ha hb hane hbne htext

/-- There is only one list of these documents in their order. -/
theorem eq_discovered_of_mem (h : t.HasFileNames) {files : List (List Text)} (hnodup : files.Nodup)
    (hsorted : files.Pairwise fun a b => sourceOrder a b)
    (hmem : ∀ names, names ∈ files ↔ names ∈ t.discovered l allowed) :
    files = t.discovered l allowed := by
  have hperm : files.Perm (t.discovered l allowed) :=
    (List.perm_ext_iff_of_nodup hnodup nodup_discovered).2 hmem
  refine hperm.eq_of_pairwise ?_ hsorted discovered_sorted
  intro a b ha hb hab hba
  exact eq_of_mem_discovered h ((hmem a).1 ha) hb (Text.le_antisymm hab hba)

/-- What is found, and in which order, depends only on which documents there are. -/
theorem discovered_congr (hnames : t.HasFileNames)
    (h : ∀ names, isDocumentName names → allowed names.length → ∀ bytes,
      t'.nodeAt (l ++ names) = some (.file bytes) ↔ t.nodeAt (l ++ names) = some (.file bytes)) :
    t'.discovered l allowed = t.discovered l allowed := by
  have hmem : ∀ names, names ∈ t'.discovered l allowed ↔ names ∈ t.discovered l allowed := by
    intro names
    rw [mem_discovered_iff, mem_discovered_iff]
    exact and_congr_right fun hname => and_congr_right fun hdepth => exists_congr (h names hname hdepth)
  exact eq_discovered_of_mem hnames nodup_discovered discovered_sorted hmem

/-- How the tree lists its places makes no difference. -/
theorem SameNodes.discovered (h : t.SameNodes t') (hnames : t.HasFileNames) :
    t'.discovered l allowed = t.discovered l allowed := by
  refine discovered_congr hnames fun names _ _ bytes => ?_
  rw [h.node]

end FileTree

end LootTables
