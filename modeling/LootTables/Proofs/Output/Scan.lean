import Mathlib.Data.List.Basic
import LootTables.Output.Balance
import LootTables.Proofs.Text.Upper

/-!
# Scanning a text for brackets and comments

A scan reads a text from left to right. It keeps the brackets that are still open and whether a line
has just begun, and stops where a bracket closes another one than the last that was opened, or where
a slash begins a line, which might make it a comment. A text that is scanned to its end with no bracket
left open is balanced in the strong sense, that no bracket is closed before it is opened
(`Scans.depth_nonneg`), and also in the weak sense that is checked before it is written: no line is left
out from the count (`Scans.not_isComment`), and both brackets of a pair occur equally often
(`Scans.imbalance?_eq_none`).

Scans compose along the text, and what was open before a text stays open during it (`Scans.under`). So
a generated text is scanned piece by piece.
-/

namespace LootTables

/-! ### Depth -/

/-- How many of the brackets are open after a text. -/
def Brackets.depth (b : Brackets) (s : Text) : Int := s.count b.opening - s.count b.closing

theorem Brackets.depth_cons (b : Brackets) (c : CodePoint) (s : Text) :
    b.depth (c :: s) = b.depth [c] + b.depth s := by
  have hcount : ∀ d, (c :: s).count d = [c].count d + s.count d :=
    fun d => @List.count_append _ _ d [c] s
  unfold depth
  rw [hcount, hcount]
  omega

theorem Brackets.depth_singleton (b : Brackets) (c : CodePoint) :
    b.depth [c] = (if c = b.opening then 1 else 0) - if c = b.closing then 1 else 0 := by
  unfold depth
  rw [List.count_singleton, List.count_singleton]
  simp only [beq_iff_eq]
  split_ifs <;> rfl

/-- No code point is a bracket in two ways. -/
theorem Brackets.checked_distinct :
    ∀ b ∈ Brackets.checked, ∀ b' ∈ Brackets.checked, b.opening ≠ b'.closing ∧
      (b.opening = b'.opening → b = b') ∧ (b.closing = b'.closing → b = b') := by
  decide

/-! ### Structure -/

/-- The code points that make the structure of a generated text: brackets and line breaks. -/
def CodePoint.isStructural (c : CodePoint) : Bool :=
  Text.isLineBreak c || Brackets.checked.any fun b => c = b.opening || c = b.closing

/-- The text has no brackets and no line breaks. -/
def Text.IsHarmless (s : Text) : Prop := ∀ c ∈ s, ¬c.isStructural

instance (s : Text) : Decidable s.IsHarmless := inferInstanceAs (Decidable (∀ c ∈ s, ¬c.isStructural))

/-! ### One step -/

/-- What has been seen of a text: the brackets that are still open, the last one first, and whether
only blanks have come since the line began. -/
structure Scan where
  opened : List Brackets
  fresh : Bool
deriving DecidableEq

namespace Scan

/-- The open brackets after one more code point. -/
def opened? (opened : List Brackets) (c : CodePoint) : Option (List Brackets) :=
  match Brackets.checked.find? (·.opening = c) with
  | some b => some (b :: opened)
  | none =>
    match Brackets.checked.find? (·.closing = c) with
    | none => some opened
    | some b =>
      match opened with
      | [] => none
      | last :: rest => if last = b then some rest else none

/-- Whether the line has still just begun after one more code point. -/
def fresh? (fresh : Bool) (c : CodePoint) : Option Bool :=
  if Text.isLineBreak c then some true
  else if fresh ∧ c = '/' then none
  else some (fresh && Text.isBlank c)

/-- Scans one more code point. -/
def next? (σ : Scan) (c : CodePoint) : Option Scan := do
  return ⟨← opened? σ.opened c, ← fresh? σ.fresh c⟩

/-- Scanning the text leads from `σ` to `σ'`. -/
def Scans (σ : Scan) (s : Text) (σ' : Scan) : Prop := s.foldlM next? σ = some σ'

instance (σ σ' : Scan) (s : Text) : Decidable (Scans σ s σ') :=
  inferInstanceAs (Decidable (s.foldlM next? σ = some σ'))

variable {σ σ' σ'' : Scan} {c : CodePoint} {s t : Text} {opened opened' base : List Brackets}
  {b : Brackets} {fresh fresh' : Bool}

theorem next?_eq_some_iff :
    σ.next? c = some σ' ↔ opened? σ.opened c = some σ'.opened ∧ fresh? σ.fresh c = some σ'.fresh := by
  unfold next?
  cases opened? σ.opened c with
  | none => simp
  | some opened =>
    cases fresh? σ.fresh c with
    | none => simp
    | some fresh =>
      cases σ'
      simp

theorem opened?_cases (h : opened? opened c = some opened') :
    (∃ b ∈ Brackets.checked, c = b.opening ∧ opened' = b :: opened) ∨
      (∃ b ∈ Brackets.checked, c = b.closing ∧ opened = b :: opened') ∨
      (∀ b ∈ Brackets.checked, c ≠ b.opening ∧ c ≠ b.closing) ∧ opened' = opened := by
  unfold opened? at h
  split at h
  · next b hb =>
    cases h
    have hc := List.find?_some hb
    exact .inl ⟨b, List.mem_of_find?_eq_some hb, (of_decide_eq_true hc).symm, rfl⟩
  · next hopening =>
    split at h
    · next hclosing =>
      cases h
      refine .inr (.inr ⟨fun b hb => ⟨?_, ?_⟩, rfl⟩)
      · exact fun hc => List.find?_eq_none.1 hopening b hb (decide_eq_true hc.symm)
      · exact fun hc => List.find?_eq_none.1 hclosing b hb (decide_eq_true hc.symm)
    · next b hb =>
      split at h
      · cases h
      · next last rest =>
        split at h
        · next hlast =>
          cases h
          have hc := List.find?_some hb
          exact .inr (.inl ⟨b, List.mem_of_find?_eq_some hb, (of_decide_eq_true hc).symm, hlast ▸ rfl⟩)
        · cases h

/-- A step does not look below the last open bracket. -/
theorem opened?_append (h : opened? opened c = some opened') (base : List Brackets) :
    opened? (opened ++ base) c = some (opened' ++ base) := by
  unfold opened? at h ⊢
  split at h
  · next hb =>
    cases h
    rfl
  · next hopening =>
    split at h
    · next hclosing =>
      cases h
      rfl
    · next b hb =>
      split at h
      · cases h
      · next last rest =>
        dsimp only [List.cons_append]
        split at h
        · next hlast =>
          cases h
          rw [if_pos hlast]
        · cases h

/-- A code point that is no part of the structure leaves the open brackets as they are. -/
theorem opened?_of_not_structural (h : ¬c.isStructural) (opened : List Brackets) :
    opened? opened c = some opened := by
  have hmarks : ∀ b ∈ Brackets.checked, b.opening ≠ c ∧ b.closing ≠ c := by
    intro b hb
    constructor <;> intro hc <;> apply h <;> unfold CodePoint.isStructural <;>
      rw [Bool.or_eq_true, List.any_eq_true] <;> exact .inr ⟨b, hb, by simp [hc]⟩
  have hopening : Brackets.checked.find? (·.opening = c) = none :=
    List.find?_eq_none.2 fun b hb => by simp [(hmarks b hb).1]
  have hclosing : Brackets.checked.find? (·.closing = c) = none :=
    List.find?_eq_none.2 fun b hb => by simp [(hmarks b hb).2]
  unfold opened?
  rw [hopening, hclosing]

theorem opened?_count (h : opened? opened c = some opened') (hb : b ∈ Brackets.checked) :
    (opened'.count b : Int) = opened.count b + b.depth [c] := by
  rw [b.depth_singleton]
  rcases opened?_cases h with ⟨b', hb', rfl, rfl⟩ | ⟨b', hb', rfl, rfl⟩ | ⟨hmarks, rfl⟩
  · obtain ⟨-, hopening, -⟩ := Brackets.checked_distinct b hb b' hb'
    obtain ⟨hclosing, -, -⟩ := Brackets.checked_distinct b' hb' b hb
    rw [if_neg hclosing]
    by_cases hsame : b' = b
    · rw [hsame, List.count_cons_self, if_pos rfl]
      omega
    · rw [List.count_cons_of_ne hsame, if_neg fun h => hsame (hopening h.symm).symm]
      omega
  · obtain ⟨hopening, -, hclosing⟩ := Brackets.checked_distinct b hb b' hb'
    rw [if_neg hopening.symm]
    by_cases hsame : b' = b
    · rw [hsame, List.count_cons_self, if_pos rfl]
      omega
    · rw [List.count_cons_of_ne hsame, if_neg fun h => hsame (hclosing h.symm).symm]
      omega
  · obtain ⟨hopening, hclosing⟩ := hmarks b hb
    rw [if_neg hopening, if_neg hclosing]
    omega

/-! ### Whole texts -/

theorem scans_nil : Scans σ [] σ' ↔ σ = σ' := by
  unfold Scans
  rw [List.foldlM_nil]
  exact Option.some_inj

theorem scans_cons : Scans σ (c :: s) σ' ↔ ∃ σ₁, σ.next? c = some σ₁ ∧ Scans σ₁ s σ' := by
  unfold Scans
  rw [List.foldlM_cons]
  exact Option.bind_eq_some_iff

theorem scans_append : Scans σ (s ++ t) σ' ↔ ∃ σ₁, Scans σ s σ₁ ∧ Scans σ₁ t σ' := by
  unfold Scans
  rw [List.foldlM_append]
  exact Option.bind_eq_some_iff

theorem Scans.append (h : Scans σ s σ') (h' : Scans σ' t σ'') : Scans σ (s ++ t) σ'' :=
  scans_append.2 ⟨σ', h, h'⟩

/-- What was open before stays open. -/
theorem Scans.under (h : Scans ⟨opened, fresh⟩ s ⟨opened', fresh'⟩) (base : List Brackets) :
    Scans ⟨opened ++ base, fresh⟩ s ⟨opened' ++ base, fresh'⟩ := by
  induction s generalizing opened fresh with
  | nil =>
    cases scans_nil.1 h
    exact scans_nil.2 rfl
  | cons c s ih =>
    obtain ⟨⟨opened₁, fresh₁⟩, hc, hs⟩ := scans_cons.1 h
    obtain ⟨hopened, hfresh⟩ := next?_eq_some_iff.1 hc
    exact scans_cons.2 ⟨⟨opened₁ ++ base, fresh₁⟩,
      next?_eq_some_iff.2 ⟨opened?_append hopened base, hfresh⟩, ih hs⟩

/-- A text without structure changes nothing, except that no line has just begun after it. -/
theorem scans_of_isHarmless (h : s.IsHarmless) (opened : List Brackets) :
    Scans ⟨opened, false⟩ s ⟨opened, false⟩ := by
  induction s with
  | nil => exact scans_nil.2 rfl
  | cons c s ih =>
    have hc : ¬c.isStructural := h c List.mem_cons_self
    have hbreak : ¬Text.isLineBreak c := by
      intro hbreak
      apply hc
      unfold CodePoint.isStructural
      rw [hbreak, Bool.true_or]
    refine scans_cons.2 ⟨⟨opened, false⟩, next?_eq_some_iff.2 ⟨opened?_of_not_structural hc opened, ?_⟩,
      ih fun d hd => h d (List.mem_cons_of_mem c hd)⟩
    unfold fresh?
    rw [if_neg hbreak]
    simp

/-! ### Brackets -/

theorem Scans.count (h : Scans σ s σ') (hb : b ∈ Brackets.checked) :
    (σ'.opened.count b : Int) = σ.opened.count b + b.depth s := by
  induction s generalizing σ with
  | nil =>
    cases scans_nil.1 h
    exact (Int.add_zero _).symm
  | cons c s ih =>
    obtain ⟨σ₁, hc, hs⟩ := scans_cons.1 h
    have hcount := opened?_count (next?_eq_some_iff.1 hc).1 hb
    rw [ih hs, hcount, b.depth_cons c s]
    omega

/-- No bracket is closed before it is opened. -/
theorem Scans.depth_nonneg (h : Scans ⟨[], fresh⟩ s σ') (hb : b ∈ Brackets.checked) {read : Text}
    (hread : read <+: s) : 0 ≤ b.depth read := by
  obtain ⟨rest, rfl⟩ := hread
  obtain ⟨σ₁, hread, -⟩ := scans_append.1 h
  have hcount := hread.count hb
  rw [List.count_nil] at hcount
  omega

/-- When nothing is open at the end, all brackets were closed. -/
theorem Scans.depth_eq_zero (h : Scans ⟨[], fresh⟩ s ⟨[], fresh'⟩) (hb : b ∈ Brackets.checked) :
    b.depth s = 0 := by
  have hcount := h.count hb
  rw [List.count_nil] at hcount
  omega

/-! ### Lines -/

/-- How a line ends makes no difference to a scan. -/
theorem foldlM_unifyNewlinesFrom {afterReturn : Bool} (hfresh : afterReturn = true → σ.fresh = true) :
    (Text.unifyNewlinesFrom afterReturn s).foldlM next? σ = s.foldlM next? σ := by
  have hreturn : ∀ σ : Scan, σ.next? ('\r' : Char) = some ⟨σ.opened, true⟩ := fun _ => rfl
  have hfeed : ∀ σ : Scan, σ.next? ('\n' : Char) = some ⟨σ.opened, true⟩ := fun _ => rfl
  induction s generalizing σ afterReturn with
  | nil => rfl
  | cons c s ih =>
    unfold Text.unifyNewlinesFrom
    rw [List.foldlM_cons]
    split
    · next hc =>
      rw [hc, hreturn, List.foldlM_cons, hfeed]
      exact ih fun _ => rfl
    · split
      · next hc =>
        -- The line feed belongs to the carriage return before it, so a line has just begun.
        obtain ⟨hafter, rfl⟩ := hc
        have hσ : (⟨σ.opened, true⟩ : Scan) = σ := by rw [← hfresh hafter]
        rw [hfeed, hσ]
        exact ih fun h => absurd h Bool.false_ne_true
      · rw [List.foldlM_cons]
        refine congrArg _ (funext fun σ₁ => ih fun h => absurd h Bool.false_ne_true)

theorem scans_unifyNewlines : Scans σ s.unifyNewlines σ' ↔ Scans σ s σ' := by
  unfold Scans Text.unifyNewlines
  rw [foldlM_unifyNewlinesFrom fun h => absurd h Bool.false_ne_true]

/-- A blank before a line makes it no comment and no other line. -/
theorem isComment_cons_of_isBlank (hc : Text.isBlank c) (s : Text) :
    isComment (c :: s) = isComment s := by
  unfold isComment Text.dropBlanks
  rw [List.dropWhile_cons_of_pos hc]

theorem not_isComment_cons (hc : ¬Text.isBlank c) (hslash : c ≠ '/') (s : Text) :
    ¬isComment (c :: s) := by
  unfold isComment Text.dropBlanks
  rw [List.dropWhile_cons_of_neg hc, List.isPrefixOf_iff_prefix]
  exact fun hprefix => hslash (List.cons_prefix_cons.1 hprefix).1.symm

/-- No line is a comment, except perhaps the first one, when something stands before it. -/
theorem Scans.not_isComment_cutAtBreaks (h : Scans σ s σ') {line : Text} {lines : List Text}
    (hcut : Text.cutAtBreaks s = line :: lines) :
    (σ.fresh = true → ¬isComment line) ∧ ∀ later ∈ lines, ¬isComment later := by
  have hempty : ¬isComment [] := by decide
  induction s generalizing σ line lines with
  | nil => cases hcut
  | cons c s ih =>
    obtain ⟨σ₁, hc, hs⟩ := scans_cons.1 h
    have hfresh := (next?_eq_some_iff.1 hc).2
    unfold fresh? at hfresh
    unfold Text.cutAtBreaks at hcut
    split at hcut
    · next hbreak =>
      cases hcut
      rw [if_pos hbreak, Option.some_inj] at hfresh
      refine ⟨fun _ => hempty, fun later hlater => ?_⟩
      cases hrest : Text.cutAtBreaks s with
      | nil =>
        rw [hrest] at hlater
        cases hlater
      | cons first rest =>
        obtain ⟨hfirst, hlines⟩ := ih hs hrest
        rw [hrest] at hlater
        rcases List.mem_cons.1 hlater with rfl | hlater
        · exact hfirst hfresh.symm
        · exact hlines later hlater
    · next hbreak =>
      rw [if_neg hbreak] at hfresh
      split at hfresh
      · cases hfresh
      · next hslash =>
        rw [Option.some_inj] at hfresh
        -- The code point belongs to the first line, and leaves it fresh only if it is blank.
        have hcons : ∀ line, (σ₁.fresh = true → ¬isComment line) → σ.fresh = true →
            ¬isComment (c :: line) := by
          intro line hline hσ
          by_cases hblank : Text.isBlank c
          · rw [isComment_cons_of_isBlank hblank]
            exact hline (by rw [← hfresh, hσ, hblank]; rfl)
          · exact not_isComment_cons hblank (fun h => hslash ⟨hσ, h⟩) line
        split at hcut
        · cases hcut
          exact ⟨hcons [] fun _ => hempty, List.forall_mem_nil _⟩
        · next first rest hrest =>
          cases hcut
          obtain ⟨hfirst, hlines⟩ := ih hs hrest
          exact ⟨hcons first hfirst, hlines⟩

theorem Scans.not_isComment (h : Scans ⟨opened, true⟩ s σ') : ∀ line ∈ s.lines, ¬isComment line := by
  unfold Text.lines
  cases hcut : Text.cutAtBreaks s.unifyNewlines with
  | nil => exact List.forall_mem_nil _
  | cons line lines =>
    obtain ⟨hline, hlines⟩ := (scans_unifyNewlines.2 h).not_isComment_cutAtBreaks hcut
    exact List.forall_mem_cons.2 ⟨hline rfl, hlines⟩

/-! ### The check before writing -/

theorem flatten_cutAtBreaks (s : Text) :
    (Text.cutAtBreaks s).flatten = s.filter fun c => !Text.isLineBreak c := by
  induction s with
  | nil => rfl
  | cons c s ih =>
    unfold Text.cutAtBreaks
    split
    · next hbreak =>
      rw [List.filter_cons_of_neg (by simp [hbreak]), ← ih]
      rfl
    · next hbreak =>
      rw [List.filter_cons_of_pos (by simp [hbreak]), ← ih]
      split
      · next hrest => rw [hrest]; rfl
      · next hrest => rw [hrest]; rfl

theorem bracket_not_isLineBreak :
    ∀ b ∈ Brackets.checked, ¬Text.isLineBreak b.opening ∧ ¬Text.isLineBreak b.closing := by
  decide

theorem occurrences_lines (s : Text) (hc : ¬Text.isLineBreak c) :
    occurrences c s.lines = s.unifyNewlines.count c := by
  unfold occurrences Text.lines
  rw [flatten_cutAtBreaks, List.count_filter (by simp [hc])]

/-- A text that is scanned to its end without an open bracket passes the check before writing. -/
theorem Scans.imbalance?_eq_none (h : Scans ⟨[], true⟩ s ⟨[], fresh⟩) : imbalance? s = none := by
  have hlines : codeLines s = s.lines := by
    unfold codeLines
    exact List.filter_eq_self.2 fun line hline => by simp [h.not_isComment line hline]
  unfold imbalance?
  rw [hlines]
  refine List.findSome?_eq_none_iff.2 fun b hb => ?_
  obtain ⟨hopening, hclosing⟩ := bracket_not_isLineBreak b hb
  have hdepth := (scans_unifyNewlines.2 h).depth_eq_zero hb
  unfold Brackets.depth at hdepth
  unfold Brackets.imbalance?
  rw [occurrences_lines s hopening, occurrences_lines s hclosing]
  exact if_pos (by omega)

end Scan

end LootTables
