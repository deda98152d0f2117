import LootTables.Proofs.Output.Nested
import LootTables.Proofs.Text.Lines

/-!
# The comment above a text

The generation comment is one more line above a generated text (`Generator.generate_of_comment`). It begins
with the mark of a comment, but it shows a command line as it was given, and the check before writing ends
lines at more characters than the line feed: what comes after such a character is another line, and code
unless it looks like a comment too (`spilled`).

What is counted of a text with a comment above it is what is counted of the two
(`occurrences_codeLines_under`). So a comment without line breaks makes no difference (`spilled_eq_nil`),
and neither do words without brackets behind the last line of it (`occurrences_codeLines_behind`).
-/

namespace LootTables

theorem Text.IsHarmless.isUnbroken {s : Text} (h : s.IsHarmless) : s.IsUnbroken := by
  intro c hc hbreak
  apply h c hc
  unfold CodePoint.isStructural
  rw [hbreak, Bool.true_or]

/-! ### Counting -/

section

variable {c : CodePoint} {s t z : Text} {xs ys : List Text}

theorem occurrences_append : occurrences c (xs ++ ys) = occurrences c xs + occurrences c ys := by
  unfold occurrences
  rw [List.flatten_append, List.count_append]

theorem occurrences_codeLines_newline (c : CodePoint) (s : Text) :
    occurrences c (codeLines (s ++ "\n")) = occurrences c (codeLines s) := by
  have hempty : occurrences c ([[]].filter fun line => !isComment line) = 0 := rfl
  have hlines : (s ++ "\n").lines = s.lines ∨ (s ++ "\n").lines = s.lines ++ [[]] :=
    Text.lines_concat_newline s
  unfold codeLines
  rcases hlines with h | h
  · rw [h]
  · rw [h, List.filter_append, occurrences_append, hempty, Nat.add_zero]

/-- Of a text under another one, what is counted of both is counted. -/
theorem occurrences_codeLines_under (c : CodePoint) (s t : Text) :
    occurrences c (codeLines (s ++ "\n" ++ t)) =
      occurrences c (codeLines s) + occurrences c (codeLines t) := by
  have hlines : (s ++ "\n" ++ t).lines = (s ++ "\n").lines ++ t.lines := by
    rw [List.append_assoc]
    exact Text.lines_append_newline s t
  have hsplit : codeLines (s ++ "\n" ++ t) = codeLines (s ++ "\n") ++ codeLines t := by
    unfold codeLines
    rw [hlines, List.filter_append]
  rw [hsplit, occurrences_append, occurrences_codeLines_newline]

/-- What begins with no slash does not make a line a comment, unless it is one itself. -/
theorem isComment_append (hslash : z.head? ≠ some (('/' : Char) : CodePoint)) (hcode : ¬isComment z)
    (s : Text) : isComment (s ++ z) = isComment s := by
  have hmark : commentMark = [(('/' : Char) : CodePoint), (('/' : Char) : CodePoint)] := rfl
  unfold isComment Text.dropBlanks at hcode ⊢
  rw [List.dropWhile_append]
  match s.dropWhile Text.isBlank with
  | [] => exact Bool.eq_false_iff.2 hcode
  | [a] =>
    cases z with
    | nil => rfl
    | cons b z =>
      have hb : (('/' : Char) : CodePoint) ≠ b := by
        rintro rfl
        exact hslash rfl
      simp [hmark, List.isPrefixOf, hb]
  | a :: b :: _ => simp [hmark, List.isPrefixOf]

/-- Words without brackets behind the last line are not counted. -/
theorem occurrences_codeLines_behind (hslash : z.head? ≠ some (('/' : Char) : CodePoint))
    (hcode : ¬isComment z) (hline : z.IsUnbroken) (hc : c ∉ z) (s : Text) :
    occurrences c (codeLines (s ++ z)) = occurrences c (codeLines s) := by
  by_cases hempty : z = []
  · rw [hempty, List.append_nil]
  · unfold codeLines Text.lines Text.unifyNewlines
    rw [hline.unifyNewlinesFrom_append]
    obtain ⟨before, last, hboth, hs⟩ := hline.cutAtBreaks_append hempty (Text.unifyNewlinesFrom false s)
    have hlast : occurrences c ([last ++ z].filter fun line => !isComment line) =
        occurrences c ([last].filter fun line => !isComment line) := by
      rw [List.filter_singleton, List.filter_singleton, isComment_append hslash hcode]
      cases isComment last with
      | true => rfl
      | false => simp [occurrences, List.count_eq_zero.2 hc]
    rw [hboth, List.filter_append, occurrences_append, hlast]
    rcases hs with hs | ⟨hs, rfl⟩
    · rw [hs, List.filter_append, occurrences_append]
    · rw [hs]
      rfl

/-! ### Balance -/

/-- Both brackets of each pair occur equally often in the lines. -/
def Balanced (lines : List Text) : Prop :=
  ∀ b ∈ Brackets.checked, occurrences b.opening lines = occurrences b.closing lines

instance (lines : List Text) : Decidable (Balanced lines) :=
  inferInstanceAs (Decidable (∀ b ∈ Brackets.checked, _ = _))

theorem imbalance?_eq_none_iff : imbalance? s = none ↔ Balanced (codeLines s) := by
  unfold imbalance? Balanced Brackets.imbalance?
  rw [List.findSome?_eq_none_iff]
  refine forall₂_congr fun b _ => ?_
  dsimp only
  split
  · next h => exact iff_of_true rfl h
  · next h => exact iff_of_false nofun h

/-- The lines of a comment that are no comments: what a command line with line breaks spills into the
code. -/
def spilled (commandLine : Text) : List Text := codeLines (Generator.commentLine commandLine)

theorem commentLine_ne_nil (line : Text) : Generator.commentLine line ≠ [] := List.cons_ne_nil _ _

/-- A command line without line breaks spills nothing. -/
theorem spilled_eq_nil {line : Text} (h : line.IsUnbroken) : spilled line = [] := by
  have hstart :
      Text.IsUnbroken (commentMark ++ " Generated by " ++ Generator.programName ++ " v1.0.0 : ") := by decide
  have hline : (Generator.commentLine line).lines = [Generator.commentLine line] :=
    (hstart.append h).lines (commentLine_ne_nil line)
  unfold spilled codeLines
  rw [hline]
  rfl

/-- A text under a comment is balanced if it is together with what the comment spills. -/
theorem imbalance?_under_comment {line : Text} :
    imbalance? (Generator.commentLine line ++ "\n" ++ s) = none ↔
      Balanced (spilled line ++ codeLines s) := by
  rw [imbalance?_eq_none_iff]
  unfold Balanced spilled
  simp only [occurrences_codeLines_under, occurrences_append]

/-- Words without brackets at the end of a command line do not count. -/
theorem balanced_spilled_behind {line : Text} {lines : List Text}
    (hslash : z.head? ≠ some (('/' : Char) : CodePoint)) (hcode : ¬isComment z) (hharmless : z.IsHarmless) :
    Balanced (spilled (line ++ z) ++ lines) ↔ Balanced (spilled line ++ lines) := by
  have hcount : ∀ b ∈ Brackets.checked, ∀ c, c = b.opening ∨ c = b.closing →
      occurrences c (spilled (line ++ z)) = occurrences c (spilled line) := by
    intro b hb c hc
    have hmark : c ∉ z := by
      intro hmem
      apply hharmless c hmem
      unfold CodePoint.isStructural
      rw [Bool.or_eq_true, List.any_eq_true]
      exact .inr ⟨b, hb, by simpa using hc⟩
    unfold spilled Generator.commentLine
    rw [← List.append_assoc]
    exact occurrences_codeLines_behind hslash hcode hharmless.isUnbroken hmark _
  unfold Balanced
  refine forall₂_congr fun b hb => ?_
  rw [occurrences_append, occurrences_append, occurrences_append, occurrences_append,
    hcount b hb _ (.inl rfl), hcount b hb _ (.inr rfl)]

end

/-! ### Generated texts -/

namespace Generator

variable {g : Generator} {t : FileTree} {commandLine commandLine' : Except FileError Text} {content : Text}

/-- The generator without the comment. -/
def uncommented (g : Generator) : Generator :=
  { g with config := { g.config with generationComment := .bool false } }

/-- Without the comment, the command line is not looked at. -/
theorem generate_of_no_comment (h : ¬g.config.generationComment.isYes) :
    g.generate t commandLine = g.uncommented.generate t commandLine' := by
  unfold generate comment
  rw [if_neg h]
  rfl

/-- The comment stands above the text. -/
theorem generate_of_comment (h : g.config.generationComment.isYes) :
    g.generate t commandLine = .ok content ↔ ∃ line rest, commandLine = .ok line ∧
      g.uncommented.generate t (.ok []) = .ok rest ∧ content = commentLine line ++ "\n" ++ rest := by
  have hframe : ∀ line body, g.frame (commentLine line) body =
      commentLine line ++ "\n" ++ g.uncommented.frame [] body := by
    intro line body
    unfold frame header
    rw [if_neg (mt List.isEmpty_iff.1 (commentLine_ne_nil line))]
    simp [uncommented]
  have hcomment : ∀ comment, g.comment commandLine = .ok comment ↔
      ∃ line, commandLine = .ok line ∧ comment = commentLine line := by
    intro comment
    unfold Generator.comment
    rw [if_pos h]
    cases commandLine with
    | error e => simp [Except.mapError]
    | ok line => simp [Except.mapError, eq_comm]
  simp only [generate_eq_ok_iff, hcomment]
  constructor
  · rintro ⟨loaded, body, -, hloaded, hbody, ⟨line, hline, rfl⟩, rfl⟩
    exact ⟨line, _, hline, ⟨loaded, body, [], hloaded, hbody, rfl, rfl⟩, hframe line body⟩
  · rintro ⟨line, -, hline, ⟨loaded, body, comment, hloaded, hbody, hnone, rfl⟩, rfl⟩
    obtain rfl : [] = comment := Except.ok.inj hnone
    exact ⟨loaded, body, _, hloaded, hbody, ⟨line, hline, rfl⟩, (hframe line body).symm⟩

end Generator

end LootTables
