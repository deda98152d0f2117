import Mathlib.Data.List.Basic
import LootTables.Text.Lines

/-!
# Lines of texts that are put together

The lines of a text above another one are those of the two (`lines_append_newline`), and a line feed at
the end adds at most an empty line (`lines_concat_newline`). A text without line breaks (`IsUnbroken`) is
a single line (`IsUnbroken.lines`), and behind another text it goes on in the last line of that
(`IsUnbroken.cutAtBreaks_append`).
-/

namespace LootTables.Text

variable {c : CodePoint} {s t z : Text}

/-! ### Lines of two texts -/

theorem cutAtBreaks_append_cons (hc : isLineBreak c) (s t : Text) :
    cutAtBreaks (s ++ c :: t) = cutAtBreaks (s ++ [c]) ++ cutAtBreaks t := by
  induction s with
  | nil => simp [cutAtBreaks, hc]
  | cons d s ih =>
    rw [List.cons_append, List.cons_append, cutAtBreaks, cutAtBreaks, ih]
    split
    · rfl
    · cases hfirst : cutAtBreaks (s ++ [c]) with
      | nil =>
        -- A text with a break in it has a line.
        cases s with
        | nil => simp [cutAtBreaks, hc] at hfirst
        | cons e s =>
          rw [List.cons_append, cutAtBreaks] at hfirst
          split at hfirst
          · cases hfirst
          · split at hfirst <;> cases hfirst
      | cons line lines => rfl

/-- A break at the end adds at most an empty line. -/
theorem cutAtBreaks_concat (hc : isLineBreak c) (s : Text) :
    cutAtBreaks (s ++ [c]) = cutAtBreaks s ∨ cutAtBreaks (s ++ [c]) = cutAtBreaks s ++ [[]] := by
  induction s with
  | nil => exact .inr (by simp [cutAtBreaks, hc])
  | cons d s ih =>
    rw [List.cons_append, cutAtBreaks, cutAtBreaks]
    split
    · rcases ih with h | h
      · exact .inl (congrArg _ h)
      · exact .inr (congrArg _ h)
    · rcases ih with h | h
      · exact .inl (by rw [h])
      · rw [h]
        cases cutAtBreaks s with
        | nil => exact .inl rfl
        | cons line lines => exact .inr rfl

theorem isLineBreak_newline : isLineBreak (('\n' : Char) : CodePoint) := by decide

theorem unifyNewlinesFrom_append_newline (afterReturn : Bool) (s t : Text) :
    unifyNewlinesFrom afterReturn (s ++ (('\n' : Char) : CodePoint) :: t) =
      unifyNewlinesFrom afterReturn (s ++ [(('\n' : Char) : CodePoint)]) ++ unifyNewlines t := by
  induction s generalizing afterReturn with
  | nil => cases afterReturn <;> rfl
  | cons c s ih =>
    rw [List.cons_append, List.cons_append, unifyNewlinesFrom, unifyNewlinesFrom, ih, ih]
    split
    · rfl
    · split <;> rfl

/-- A line feed after a carriage return belongs to it. -/
theorem unifyNewlinesFrom_concat_newline (afterReturn : Bool) (s : Text) :
    unifyNewlinesFrom afterReturn (s ++ [(('\n' : Char) : CodePoint)]) = unifyNewlinesFrom afterReturn s ∨
      unifyNewlinesFrom afterReturn (s ++ [(('\n' : Char) : CodePoint)]) =
        unifyNewlinesFrom afterReturn s ++ [(('\n' : Char) : CodePoint)] := by
  induction s generalizing afterReturn with
  | nil => cases afterReturn <;> decide
  | cons c s ih =>
    rw [List.cons_append, unifyNewlinesFrom, unifyNewlinesFrom]
    split
    · exact (ih true).imp (congrArg _) (congrArg _)
    · split
      · exact ih false
      · exact (ih false).imp (congrArg _) (congrArg _)

/-- A text that ends in a line feed does so with its newlines unified. -/
theorem exists_unifyNewlinesFrom_concat (afterReturn : Bool) (s : Text) (h : afterReturn → s ≠ []) :
    ∃ before, unifyNewlinesFrom afterReturn (s ++ [(('\n' : Char) : CodePoint)]) =
      before ++ [(('\n' : Char) : CodePoint)] := by
  induction s generalizing afterReturn with
  | nil =>
    cases afterReturn with
    | false => exact ⟨[], rfl⟩
    | true => exact absurd rfl (h rfl)
  | cons c s ih =>
    rw [List.cons_append, unifyNewlinesFrom]
    split
    · by_cases hs : s = []
      · exact ⟨[], by rw [hs]; rfl⟩
      · obtain ⟨before, hbefore⟩ := ih true fun _ => hs
        exact ⟨('\n' : Char) :: before, congrArg _ hbefore⟩
    · obtain ⟨before, hbefore⟩ := ih false fun h => absurd h Bool.false_ne_true
      split
      · exact ⟨before, hbefore⟩
      · exact ⟨c :: before, congrArg _ hbefore⟩

/-- The lines of a text under another one, each ended by a line feed. -/
theorem lines_append_newline (s t : Text) :
    lines (s ++ (('\n' : Char) : CodePoint) :: t) =
      lines (s ++ [(('\n' : Char) : CodePoint)]) ++ lines t := by
  obtain ⟨before, hbefore⟩ :=
    exists_unifyNewlinesFrom_concat false s fun h => absurd h Bool.false_ne_true
  unfold lines
  rw [unifyNewlines, unifyNewlinesFrom_append_newline, hbefore, List.append_assoc]
  rw [List.singleton_append, cutAtBreaks_append_cons isLineBreak_newline, ← hbefore]
  rfl

theorem lines_concat_newline (s : Text) :
    lines (s ++ [(('\n' : Char) : CodePoint)]) = lines s ∨
      lines (s ++ [(('\n' : Char) : CodePoint)]) = lines s ++ [[]] := by
  unfold lines unifyNewlines
  rcases unifyNewlinesFrom_concat_newline false s with h | h
  · exact .inl (by rw [h])
  · rw [h]
    exact cutAtBreaks_concat isLineBreak_newline _

/-! ### Lines of a text that goes on -/

/-- The text has no line breaks. -/
def IsUnbroken (s : Text) : Prop := ∀ c ∈ s, ¬isLineBreak c

instance (s : Text) : Decidable s.IsUnbroken := inferInstanceAs (Decidable (∀ c ∈ s, ¬isLineBreak c))

theorem IsUnbroken.append (hs : s.IsUnbroken) (ht : t.IsUnbroken) : IsUnbroken (s ++ t) :=
  fun c hc => (List.mem_append.1 hc).elim (hs c) (ht c)

/-- A part of a text has no line breaks either. -/
theorem IsUnbroken.subset (h : s.IsUnbroken) (hsub : ∀ c ∈ t, c ∈ s) : t.IsUnbroken :=
  fun c hc => h c (hsub c hc)

theorem IsUnbroken.cutAtBreaks (h : s.IsUnbroken) (hs : s ≠ []) : cutAtBreaks s = [s] := by
  induction s with
  | nil => exact absurd rfl hs
  | cons c s ih =>
    obtain ⟨hc, hrest⟩ := List.forall_mem_cons.1 h
    rw [Text.cutAtBreaks, if_neg hc]
    cases s with
    | nil => rfl
    | cons d s => rw [ih hrest (List.cons_ne_nil d s)]

theorem IsUnbroken.unifyNewlinesFrom_append (h : z.IsUnbroken) (afterReturn : Bool) (s : Text) :
    unifyNewlinesFrom afterReturn (s ++ z) = unifyNewlinesFrom afterReturn s ++ z := by
  induction s generalizing afterReturn with
  | nil =>
    induction z generalizing afterReturn with
    | nil => rfl
    | cons c z ih =>
      obtain ⟨hc, hz⟩ := List.forall_mem_cons.1 h
      have hreturn : c ≠ (('\r' : Char) : CodePoint) := by
        rintro rfl
        exact hc (by decide)
      have hfeed : c ≠ (('\n' : Char) : CodePoint) := by
        rintro rfl
        exact hc (by decide)
      rw [List.nil_append, unifyNewlinesFrom.eq_2, if_neg hreturn, if_neg fun h => hfeed h.2]
      exact congrArg _ (ih hz false)
  | cons c s ih =>
    rw [List.cons_append, unifyNewlinesFrom, unifyNewlinesFrom, ih, ih]
    split
    · rfl
    · split <;> rfl

/-- A text without line breaks is a line. -/
theorem IsUnbroken.lines (h : s.IsUnbroken) (hs : s ≠ []) : lines s = [s] := by
  have hunified : unifyNewlines s = s := h.unifyNewlinesFrom_append false []
  unfold Text.lines
  rw [hunified, h.cutAtBreaks hs]

/-- What has no line breaks goes on in the last line, which may be empty. -/
theorem IsUnbroken.cutAtBreaks_append (h : z.IsUnbroken) (hz : z ≠ []) (s : Text) :
    ∃ before last, Text.cutAtBreaks (s ++ z) = before ++ [last ++ z] ∧
      (Text.cutAtBreaks s = before ++ [last] ∨ Text.cutAtBreaks s = before ∧ last = []) := by
  induction s with
  | nil => exact ⟨[], [], h.cutAtBreaks hz, .inr ⟨rfl, rfl⟩⟩
  | cons c s ih =>
    obtain ⟨before, last, hboth, hs⟩ := ih
    rw [List.cons_append, Text.cutAtBreaks, Text.cutAtBreaks, hboth]
    split
    · refine ⟨[] :: before, last, rfl, ?_⟩
      rcases hs with hs | ⟨hs, hlast⟩
      · exact .inl (by rw [hs]; rfl)
      · exact .inr ⟨by rw [hs], hlast⟩
    · cases before with
      | nil =>
        refine ⟨[], c :: last, rfl, .inl ?_⟩
        rcases hs with hs | ⟨hs, rfl⟩
        · rw [hs]
          rfl
        · rw [hs]
          rfl
      | cons line before =>
        refine ⟨(c :: line) :: before, last, rfl, ?_⟩
        rcases hs with hs | ⟨hs, hlast⟩
        · exact .inl (by rw [hs]; rfl)
        · exact .inr ⟨by rw [hs], hlast⟩

end LootTables.Text
