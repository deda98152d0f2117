import LootTables.Files.Path
import LootTables.Proofs.Text.Cut

/-!
# Written paths

Reading a path takes writing it back (`Path.ofText_text`), as long as its names are such that reading
would keep them: with no slash in them, not empty, and no single dot. The names that reading itself gives
are of this kind (`Path.isPlain_ofText`), and so are those of a path that is resolved from there
(`Path.isPlain_absolute`).
-/

namespace LootTables

namespace Text

variable {c : CodePoint} {s : Text}

theorem notMem_of_mem_split : ∀ piece ∈ split c s, c ∉ piece := by
  induction s with
  | nil => simp [split]
  | cons d s ih =>
    rw [split]
    split
    · exact List.forall_mem_cons.2 ⟨List.not_mem_nil, ih⟩
    · next hd =>
      split
      · next hsplit => simp [Ne.symm hd]
      · next piece pieces hsplit =>
        rw [hsplit] at ih
        obtain ⟨hpiece, hpieces⟩ := List.forall_mem_cons.1 ih
        refine List.forall_mem_cons.2 ⟨?_, hpieces⟩
        rw [List.mem_cons, not_or]
        exact ⟨Ne.symm hd, hpiece⟩

end Text

namespace Path

variable {p : Path} {name : Text}

/-- A name that reading a path keeps. -/
structure IsPlainName (name : Text) : Prop where
  noSlash : slash ∉ name
  ne_nil : name ≠ []
  ne_selfName : name ≠ selfName

instance (name : Text) : Decidable (IsPlainName name) :=
  decidable_of_iff (slash ∉ name ∧ name ≠ [] ∧ name ≠ selfName)
    ⟨fun ⟨h₁, h₂, h₃⟩ => ⟨h₁, h₂, h₃⟩, fun ⟨h₁, h₂, h₃⟩ => ⟨h₁, h₂, h₃⟩⟩

/-- All names of the path are kept when it is read. -/
def IsPlain (p : Path) : Prop := ∀ name ∈ p.parts, IsPlainName name

instance (p : Path) : Decidable p.IsPlain := inferInstanceAs (Decidable (∀ name ∈ p.parts, _))

theorem isPlain_ofText (s : Text) : (ofText s).IsPlain := by
  intro name hname
  obtain ⟨hpiece, hkept⟩ := List.mem_filter.1 hname
  obtain ⟨hnil, hself⟩ := of_decide_eq_true hkept
  exact ⟨Text.notMem_of_mem_split name hpiece, hnil, hself⟩

theorem simplify_subset (names : List Text) : simplify names ⊆ names := by
  unfold simplify
  refine List.foldlRecOn (motive := fun done => done ⊆ names) names _ (List.nil_subset _) ?_
  intro done hdone name hname
  split
  · exact fun _ h => hdone (List.dropLast_subset done h)
  · exact List.append_subset.2 ⟨hdone, fun _ h => List.mem_singleton.1 h ▸ hname⟩

theorem isPlain_absolute {here : List Text} (hhere : ∀ name ∈ here, IsPlainName name) (hp : p.IsPlain) :
    (p.absolute here).IsPlain := by
  unfold absolute
  split
  · intro name hname
    exact (List.mem_append.1 (simplify_subset _ hname)).elim (hhere name) (hp name)
  · exact fun name hname => hp name (simplify_subset _ hname)

/-- The anchor of a written path is told by the slashes in front of its names. -/
theorem anchorOf_append (anchor : Anchor) {s : Text} (hs : s.head? ≠ some slash) :
    anchorOf (anchor.text ++ s) = anchor := by
  have hslashes : ∀ c ∈ anchor.text, decide (c = slash) = true := by cases anchor <;> decide
  have hrest : s.takeWhile (· = slash) = [] := by
    cases s with
    | nil => rfl
    | cons c s => exact List.takeWhile_cons_of_neg (by simpa using hs)
  unfold anchorOf
  rw [List.takeWhile_append_of_pos hslashes, hrest, List.append_nil]
  cases anchor <;> rfl

theorem partsOf_append (anchor : Anchor) (s : Text) : partsOf (anchor.text ++ s) = partsOf s := by
  have hslash : ∀ s, partsOf (slash :: s) = partsOf s := by
    intro s
    unfold partsOf
    rw [← List.nil_append (slash :: s), Text.split_append_cons List.not_mem_nil]
    exact List.filter_cons_of_neg (by simp)
  cases anchor with
  | here => rfl
  | root => exact hslash s
  | doubleRoot => exact (hslash (slash :: s)).trans (hslash s)

theorem partsOf_join (hp : p.IsPlain) : partsOf (Text.join "/" p.parts) = p.parts := by
  by_cases hparts : p.parts = []
  · rw [hparts]
    rfl
  · have hsplit : Text.split slash (Text.join "/" p.parts) = p.parts :=
      Text.split_join (fun name hname => (hp name hname).noSlash) hparts
    unfold partsOf
    rw [hsplit]
    exact List.filter_eq_self.2 fun name hname =>
      decide_eq_true ⟨(hp name hname).ne_nil, (hp name hname).ne_selfName⟩

theorem head?_join_ne_slash (hp : p.IsPlain) : (Text.join "/" p.parts).head? ≠ some slash := by
  cases hparts : p.parts with
  | nil => exact nofun
  | cons name names =>
    have hname := hp name (hparts ▸ List.mem_cons_self)
    rw [Text.join_cons]
    cases name with
    | nil => exact absurd rfl hname.ne_nil
    | cons c name =>
      intro h
      exact hname.noSlash (List.mem_cons.2 (.inl (Option.some.inj h).symm))

/-- Reading takes writing back. -/
theorem ofText_text (hp : p.IsPlain) : ofText p.text = p := by
  have hread : ofText (p.anchor.text ++ Text.join "/" p.parts) = p := by
    unfold ofText
    rw [anchorOf_append p.anchor (head?_join_ne_slash hp), partsOf_append, partsOf_join hp]
  unfold text
  split
  · next h =>
    -- A path that would be written as nothing is written as a dot, which reads as the same path.
    rw [h] at hread
    rw [← hread]
    rfl
  · exact hread

end Path

end LootTables
