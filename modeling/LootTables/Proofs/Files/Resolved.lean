import LootTables.Proofs.Files.Directories

/-!
# Resolved paths

A path of a command line is resolved before anything is looked up: it starts at the root, and its steps
up have been carried out. Such a path is its own location, as far as it can be walked
(`locate_resolved_iff`). So where it leads to nothing, there is nothing.
-/

namespace LootTables

namespace Path

variable {p : Path}

/-- The path starts at the root and has no steps up. -/
structure IsResolved (p : Path) : Prop where
  anchor : p.anchor = .root
  noStepUp : aboveName ∉ p.parts

theorem aboveName_notMem_simplify (names : List Text) : aboveName ∉ simplify names := by
  unfold simplify
  -- A step up is carried out, and never becomes one of the names that are done.
  refine List.foldlRecOn (motive := fun done => aboveName ∉ done) names _ List.not_mem_nil ?_
  intro done hdone name _ habove
  split at habove
  · exact hdone (List.dropLast_subset done habove)
  · next hname =>
    rcases List.mem_append.1 habove with h | h
    · exact hdone h
    · exact hname (List.mem_singleton.1 h).symm

theorem isResolved_absolute (here : List Text) (p : Path) : (p.absolute here).IsResolved := by
  unfold absolute
  split
  · exact ⟨rfl, aboveName_notMem_simplify _⟩
  · exact ⟨rfl, aboveName_notMem_simplify _⟩

theorem IsResolved.of_prefix (h : p.IsResolved) {names : List Text} (hnames : names <+: p.parts) :
    (⟨p.anchor, names⟩ : Path).IsResolved :=
  ⟨h.anchor, fun habove => h.noStepUp (hnames.subset habove)⟩

theorem IsResolved.parent (h : p.IsResolved) : p.parent.IsResolved :=
  h.of_prefix (List.dropLast_prefix p.parts)

end Path

namespace FileTree

variable {t t' : FileTree} {p : Path} {l : Location} {text : Text}

/-- A path without steps up leads to where its names say, through directories. -/
theorem locate_iff_of_noStepUp (hp : Path.aboveName ∉ p.parts) :
    t.locate p = .ok l ↔ (CodePoint.ofNat 0 ∉ p.text ∧ Utf8.encodedLength p.text ≤ pathLimit) ∧
      l = t.start p ++ p.parts ∧ (∀ name ∈ p.parts, Utf8.encodedLength name ≤ nameLimit) ∧
      ∀ before name, before ++ [name] <+: p.parts →
        t.nodeAt (t.start p ++ before) = some .directory := by
  rw [locate_eq_ok_iff, walk_eq_ok_iff hp, ← and_assoc]

theorem start_of_isResolved (t : FileTree) (hp : p.IsResolved) : t.start p = [] := by
  unfold start
  rw [hp.anchor]

/-- A resolved path leads to where its names say, through directories. -/
theorem locate_resolved_iff (hp : p.IsResolved) :
    t.locate p = .ok l ↔ (CodePoint.ofNat 0 ∉ p.text ∧ Utf8.encodedLength p.text ≤ pathLimit) ∧
      l = p.parts ∧ (∀ name ∈ p.parts, Utf8.encodedLength name ≤ nameLimit) ∧
      ∀ before name, before ++ [name] <+: p.parts → t.nodeAt before = some .directory := by
  rw [locate_iff_of_noStepUp hp.noStepUp, start_of_isResolved t hp]
  simp only [List.nil_append]

/-- Where there is something, a path without steps up leads there if it does so in a tree with more
directories. -/
theorem IsGrounded.locate_of_nodeAt (grounded : t.IsGrounded) (hp : Path.aboveName ∉ p.parts)
    (hstart : t'.start p = t.start p) (hthere : t'.locate p = .ok l) (hnode : t.nodeAt l ≠ none) :
    t.locate p = .ok l := by
  obtain ⟨htext, hl, hlengths, -⟩ := (locate_iff_of_noStepUp hp).1 hthere
  rw [hstart] at hl
  refine (locate_iff_of_noStepUp hp).2 ⟨htext, hl, hlengths, ?_⟩
  intro before name hbegins
  rw [hl] at hnode
  exact grounded.through hnode hbegins

/-- Where a resolved path leads to nothing, there is nothing, if it can be walked at all. -/
theorem nodeAt_of_find (grounded : t.IsGrounded) (hp : p.IsResolved) (hthere : t'.locate p = .ok l)
    (hfind : ∀ found, t.find p ≠ .ok found) : t.nodeAt l = none := by
  have hstart : t'.start p = t.start p := (start_of_isResolved t' hp).trans (start_of_isResolved t hp).symm
  by_contra hnode
  have hlocate := grounded.locate_of_nodeAt hp.noStepUp hstart hthere hnode
  obtain ⟨node, hnode⟩ := Option.ne_none_iff_exists'.1 hnode
  exact hfind _ (find_eq_ok_iff.2 ⟨hlocate, hnode⟩)

end FileTree

end LootTables
