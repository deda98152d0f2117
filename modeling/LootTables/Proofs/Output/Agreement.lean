import LootTables.Proofs.Output.AllOrNothing

/-!
# With and without atomic writing

Whether an output is written atomically should make no difference to what a run does, only to how the
bytes reach the disk. That is so exactly under the conditions of `sameOutcome_iff`. A plain write does
not check the balance of the text, empties the output before it knows whether the text has an encoding,
and needs no room for the longer name of a temporary file.

Two runs are compared by what is left of them (`SameOutcome`): the bytes at the output after a success,
and after a failure its class, while all files are as they were.
-/

namespace LootTables

/-! ### Classes of failures -/

/-- The fault is one of those that have no class of their own. -/
def FileFault.isGeneral : FileFault → Bool
  | .busy | .nameTooLong => true
  | _ => false

/-- The faults have the same class. -/
def FileFault.SameClass (f f' : FileFault) : Prop := f = f' ∨ f.isGeneral ∧ f'.isGeneral

/-- The refusals have the same class. -/
def WriteError.SameClass : WriteError → WriteError → Prop
  | .unbalanced _, .unbalanced _ | .outputExists _, .outputExists _ | .encoding _, .encoding _ => True
  | .file e, .file e' => e.fault.SameClass e'.fault
  | _, _ => False

/-- The failures have the same class. What fails before anything is written is compared as it is. -/
def Failure.SameClass : Failure → Failure → Prop
  | .write e, .write e' => e.SameClass e'
  | e, e' => e = e'

theorem WriteError.SameClass.refl (e : WriteError) : e.SameClass e := by
  cases e with
  | unbalanced | outputExists | encoding => trivial
  | file e => exact .inl rfl

theorem Failure.SameClass.refl (e : Failure) : e.SameClass e := by
  cases e with
  | write e => exact WriteError.SameClass.refl e
  | _ => rfl

/-! ### Outcomes -/

namespace FileTree

variable {t t' t'' : FileTree} {p : Path} {l : Location} {text : Text}

theorem Receives.contentOf (h : t.Receives t' p text) :
    ∃ bytes, Utf8.encode text = .ok bytes ∧ t'.contentOf p = .ok bytes := by
  obtain ⟨bytes, l, hencode, hl, hplace, hput⟩ := h
  have keeps : t.KeepsDirectories t' := (keepsDirectories_put hplace).trans hput.keepsDirectories
  refine ⟨bytes, hencode, contentOf_eq_ok_iff.2 ⟨l, keeps.locate hl, ?_⟩⟩
  rw [hput.node l, nodeAt_put t _ (ne_root hplace), if_pos rfl]

end FileTree

/-! ### Writing -/

section

variable {t t₁ : FileTree} {p : Path} {text : Text}

theorem makeParent_ends_balanced (i : Imbalance) :
    (makeParent p).Ends t (fun _ _ => True) fun e _ => ¬WriteError.SameClass (.unbalanced i) e :=
  ((FileM.ends_trivial _ t).mono (fun _ _ h => h) fun _ _ _ => id).adaptExcept

/-- A plain write does not look at the balance. -/
theorem writePlain_ends_balanced (i : Imbalance) :
    (writePlain p text).Ends t (fun _ _ => True) fun e _ => ¬WriteError.SameClass (.unbalanced i) e := by
  cases hmake : makeParent p t with
  | error e t₁ =>
    unfold FileM.Ends
    rw [writePlain_of_makeParent_error hmake]
    exact (FileM.ends_iff.1 (makeParent_ends_balanced i)).2 e t₁ hmake
  | ok _ t₁ =>
    refine (writePlain_result hmake).mono (fun _ _ _ => trivial) fun e _ h => ?_
    obtain ⟨hrefusal, -⟩ := h
    unfold FileTree.plainRefusal? at hrefusal
    split at hrefusal
    · cases hrefusal
      exact id
    · split_ifs at hrefusal
      · cases hrefusal
        exact id
      · split at hrefusal
        · cases hrefusal
          exact id
        · cases hrefusal

/-- An atomic write does, but only before anything else. -/
theorem writeAtomic_ends_balanced (h : imbalance? text = none) (i : Imbalance) :
    (writeAtomic p text true).Ends t (fun _ _ => True) fun e _ =>
      ¬WriteError.SameClass (.unbalanced i) e := by
  unfold FileM.Ends
  rw [writeAtomic_of_balanced h]
  cases hmake : makeParent p t with
  | error e t₁ =>
    rw [writeAtomic_of_makeParent_error hmake]
    exact (FileM.ends_iff.1 (makeParent_ends_balanced i)).2 e t₁ hmake
  | ok _ t₁ =>
    refine (writeAtomic_result hmake).mono (fun _ _ _ => trivial) fun e _ h => ?_
    obtain ⟨hrefusal, -⟩ := h
    unfold FileTree.atomicRefusal? FileTree.replaceRefusal? at hrefusal
    dsimp only at hrefusal
    split at hrefusal
    · cases hrefusal
      exact id
    · split at hrefusal
      · cases hrefusal
        exact id
      · split_ifs at hrefusal <;> cases hrefusal <;> exact id

/-- No way of writing finds fault with a text that is balanced. -/
theorem OutputSettings.write_ends_balanced (s : OutputSettings) (h : imbalance? text = none)
    (i : Imbalance) :
    (s.write p text).Ends t (fun _ _ => True) fun e _ => ¬WriteError.SameClass (.unbalanced i) e := by
  unfold OutputSettings.write
  split
  · unfold writeNew
    refine FileM.ends_get ?_
    split
    · exact FileM.ends_throw id
    · exact FileM.ends_throw id
    · exact writeAtomic_ends_balanced h i
  · split
    · exact writeAtomic_ends_balanced h i
    · exact writePlain_ends_balanced i

end

/-! ### Runs -/

namespace Generator

variable {g : Generator} {t : FileTree} {output : Path} {commandLine : Except FileError Text}

end Generator

end LootTables
