import LootTables.Proofs.Text.Lines
import LootTables.Text.Quoted
import Mathlib.Algebra.Group.Nat.Defs

/-!
# What quoting keeps

Between the marks, a code point is written as itself, with a letter that stands for it, or with a letter
and as many hexadecimal digits as the letter tells (`EscapeForm`). All of these are printable, and where
lines end nothing is printable, so a quoted text is on one line whatever was quoted (`isUnbroken_quote`).

Nothing of the text is lost either. The forms can be told apart from the front, whichever of the two marks
they were chosen for, so code points are read back one by one (`EscapeForm.unescapePoint?`), and different
texts are quoted differently (`quote_injective`).
-/

namespace LootTables

/-- A code point that is in some ranges is in all that cover them. -/
theorem CodePoint.isIn_of_covered {c : CodePoint} {ranges covering : CodePointRanges}
    (h : ranges.all fun r => covering.any fun s => s.1 ≤ r.1 && r.2 ≤ s.2) (hc : c.isIn ranges) :
    c.isIn covering := by
  obtain ⟨r, hr, hcr⟩ := List.any_eq_true.1 hc
  obtain ⟨s, hs, hrs⟩ := List.any_eq_true.1 (List.all_eq_true.1 h r hr)
  simp only [Bool.and_eq_true, decide_eq_true_eq] at hcr hrs
  refine List.any_eq_true.2 ⟨s, hs, ?_⟩
  simp only [Bool.and_eq_true, decide_eq_true_eq]
  omega

namespace Text

/-! ### Hexadecimal numerals -/

/-- The value of a hexadecimal digit in lower case. -/
def hexDigitValue (c : CodePoint) : Nat := if c.isDigit then c.digitValue else c.val - 0x57

/-- The number that a run of hexadecimal digits in lower case denotes. -/
def natOfHexDigits (digits : Text) : Nat := digits.foldl (fun n c => 16 * n + hexDigitValue c) 0

theorem hexDigitValue_digitChar : ∀ n < 16, hexDigitValue (Nat.digitChar n) = n := by decide

theorem natOfHexDigits_append_singleton (digits : Text) (c : CodePoint) :
    natOfHexDigits (digits ++ [c]) = 16 * natOfHexDigits digits + hexDigitValue c := by
  unfold natOfHexDigits
  rw [List.foldl_append]
  rfl

theorem natOfHexDigits_toDigits (n : Nat) :
    natOfHexDigits ((Nat.toDigits 16 n).map CodePoint.ofChar) = n := by
  induction n using Nat.strongRecOn with
  | _ n ih =>
    rw [Nat.toDigits_eq_if (by decide)]
    split
    · next h => exact (Nat.zero_add _).trans (hexDigitValue_digitChar n h)
    · next h =>
      have hlast := hexDigitValue_digitChar (n % 16) (Nat.mod_lt n (by decide))
      rw [List.map_append, List.map_singleton, natOfHexDigits_append_singleton,
        ih (n / 16) (by omega), hlast, Nat.div_add_mod]

theorem natOfHexDigits_zeros (k : Nat) (digits : Text) :
    natOfHexDigits (zeros k ++ digits) = natOfHexDigits digits := by
  induction k with
  | zero => rfl
  | succ k ih => exact ih

/-- Reading a numeral takes writing it back, however far it was filled with zeros. -/
theorem natOfHexDigits_hex (width n : Nat) : natOfHexDigits (hex width n) = n := by
  unfold hex
  rw [natOfHexDigits_zeros, natOfHexDigits_toDigits]

theorem length_hex {width n : Nat} (hwidth : 0 < width) (h : n < 16 ^ width) :
    (hex width n).length = width := by
  have hlength := (Nat.length_toDigits_le_iff (by decide) hwidth).2 h
  unfold hex zeros
  rw [List.length_append, List.length_replicate, List.length_map]
  omega

theorem exists_digitChar_of_mem_hex {width n : Nat} {c : CodePoint} (h : c ∈ hex width n) :
    ∃ k < 16, c = CodePoint.ofChar (Nat.digitChar k) := by
  have hdigits : ∀ n, ∀ d ∈ Nat.toDigits 16 n, ∃ k < 16, d = Nat.digitChar k := by
    intro n
    induction n using Nat.strongRecOn with
    | _ n ih =>
      rw [Nat.toDigits_eq_if (by decide)]
      split
      · next hn => exact List.forall_mem_singleton.2 ⟨n, hn, rfl⟩
      · next hn =>
        refine List.forall_mem_append.2 ⟨ih (n / 16) (by omega), ?_⟩
        exact List.forall_mem_singleton.2 ⟨n % 16, Nat.mod_lt n (by decide), rfl⟩
  rcases List.mem_append.1 h with hzero | hdigit
  · exact ⟨0, by decide, List.eq_of_mem_replicate hzero⟩
  · obtain ⟨d, hd, rfl⟩ := List.mem_map.1 hdigit
    obtain ⟨k, hk, rfl⟩ := hdigits n d hd
    exact ⟨k, hk, rfl⟩

theorem isPrintable_of_mem_hex {width n : Nat} {c : CodePoint} (h : c ∈ hex width n) :
    isPrintable c := by
  have hdigits : ∀ k < 16, isPrintable (Nat.digitChar k) := by decide +kernel
  obtain ⟨k, hk, rfl⟩ := exists_digitChar_of_mem_hex h
  exact hdigits k hk

/-! ### The forms of a code point between marks -/

/-- How many hexadecimal digits belong to an escape with this letter, if any do. -/
def escapeWidth? (letter : CodePoint) : Option Nat :=
  if letter = 'x' then some 2
  else if letter = 'u' then some 4
  else if letter = 'U' then some 8
  else none

/-- What a letter without digits stands for in an escape. -/
def letterPoint (letter : CodePoint) : CodePoint :=
  if letter = 'n' then '\n' else if letter = 'r' then '\r' else if letter = 't' then '\t' else letter

/-- What a code point may be written as. -/
inductive EscapeForm : CodePoint → Text → Prop
  /-- As itself, unless it is a backslash. -/
  | itself {c : CodePoint} (printable : isPrintable c) (h : c ≠ '\\') : EscapeForm c [c]
  | letter {l : CodePoint} (printable : isPrintable l) (h : escapeWidth? l = none) :
      EscapeForm (letterPoint l) ['\\', l]
  | digits {c l : CodePoint} {width : Nat} (printable : isPrintable l) (h : escapeWidth? l = some width)
      (hwidth : 0 < width) (hc : c.val < 16 ^ width) : EscapeForm c ('\\' :: l :: hex width c.val)

/-- The marks that a text may be quoted with. -/
def quoteMarks : List CodePoint := ['\x22', '\x27']

theorem quoteMark_mem (s : Text) : quoteMark s ∈ quoteMarks := by
  unfold quoteMark
  split <;> decide

variable {mark c : CodePoint} {s t a : Text}

theorem isPrintable_of_mem_quoteMarks (h : mark ∈ quoteMarks) : isPrintable mark := by
  have hmarks : ∀ mark ∈ quoteMarks, isPrintable mark := by decide +kernel
  exact hmarks mark h

/-- Marks and backslashes are escaped by themselves. -/
theorem escapeForm_self (h : c ∈ (('\\' : Char) : CodePoint) :: quoteMarks) :
    EscapeForm c ['\\', c] := by
  have hself : ∀ d ∈ (('\\' : Char) : CodePoint) :: quoteMarks,
      isPrintable d ∧ escapeWidth? d = none ∧ letterPoint d = d := by decide +kernel
  obtain ⟨printable, hwidth, hpoint⟩ := hself c h
  have hform : EscapeForm (letterPoint c) ['\\', c] := .letter printable hwidth
  rwa [hpoint] at hform

theorem escapeForm_escapePoint (hmark : mark ∈ quoteMarks) (c : CodePoint) :
    EscapeForm c (escapePoint mark c) := by
  unfold escapePoint
  split
  · next hc =>
    refine escapeForm_self ?_
    rcases hc with rfl | rfl
    · exact List.mem_cons_of_mem _ hmark
    · exact List.mem_cons_self
  · next hplain =>
    split
    · next hc => exact hc ▸ .letter (l := 'n') (by decide +kernel) (by decide)
    · split
      · next hc => exact hc ▸ .letter (l := 'r') (by decide +kernel) (by decide)
      · split
        · next hc => exact hc ▸ .letter (l := 't') (by decide +kernel) (by decide)
        · split
          · next printable => exact .itself printable fun hc => hplain (.inr hc)
          · split
            · next hc => exact .digits (l := 'x') (by decide +kernel) (by decide) (by decide) hc
            · split
              · next hc => exact .digits (l := 'u') (by decide +kernel) (by decide) (by decide) hc
              · have hc : c.val < 16 ^ 8 := Nat.lt_trans c.isLt (by decide)
                exact .digits (l := 'U') (by decide +kernel) (by decide) (by decide) hc

/-! ### Quoted texts are printable -/

theorem EscapeForm.isPrintable (h : EscapeForm c a) : ∀ d ∈ a, isPrintable d := by
  have hbackslash : Text.isPrintable (('\\' : Char) : CodePoint) := by decide +kernel
  cases h with
  | itself printable _ => exact List.forall_mem_singleton.2 printable
  | letter printable _ =>
    exact List.forall_mem_cons.2 ⟨hbackslash, List.forall_mem_singleton.2 printable⟩
  | digits printable _ _ _ =>
    refine List.forall_mem_cons.2 ⟨hbackslash, List.forall_mem_cons.2 ⟨printable, ?_⟩⟩
    exact fun d hd => isPrintable_of_mem_hex hd

/-- Whatever is quoted, the quoted text shows as itself. -/
theorem isPrintable_of_mem_quote (h : c ∈ quote s) : isPrintable c := by
  have hmark := isPrintable_of_mem_quoteMarks (quoteMark_mem s)
  rcases List.mem_append.1 h with hbody | hend
  · rcases List.mem_cons.1 hbody with rfl | hbody
    · exact hmark
    · obtain ⟨d, -, hc⟩ := List.mem_flatMap.1 hbody
      exact (escapeForm_escapePoint (quoteMark_mem s) d).isPrintable c hc
  · rw [List.mem_singleton.1 hend]
    exact hmark

theorem not_isLineBreak_of_isPrintable (h : isPrintable c) : ¬isLineBreak c := by
  intro hbreak
  have hhidden : c.isIn hiddenRanges := CodePoint.isIn_of_covered (by decide +kernel) hbreak
  unfold isPrintable at h
  rw [hhidden] at h
  cases h

/-- A quoted text has no line breaks. -/
theorem isUnbroken_quote (s : Text) : (quote s).IsUnbroken :=
  fun _ hc => not_isLineBreak_of_isPrintable (isPrintable_of_mem_quote hc)

/-! ### Reading escapes -/

/-- Takes a code point off the front of a text between marks. -/
def unescapePoint? : Text → Option (CodePoint × Text)
  | [] => none
  | c :: s =>
    if c = '\\' then
      match s with
      | [] => none
      | letter :: s =>
        match escapeWidth? letter with
        | some width => some (.ofNat (natOfHexDigits (s.take width)), s.drop width)
        | none => some (letterPoint letter, s)
    else some (c, s)

/-- What a code point is written as is read back as the code point. -/
theorem EscapeForm.unescapePoint? (h : EscapeForm c a) (r : Text) :
    unescapePoint? (a ++ r) = some (c, r) := by
  have hescape : ∀ l s, Text.unescapePoint? ('\\' :: l :: s) =
      match escapeWidth? l with
      | some width => some (.ofNat (natOfHexDigits (s.take width)), s.drop width)
      | none => some (letterPoint l, s) := fun _ _ => rfl
  cases h with
  | itself _ h => exact if_neg h
  | letter _ h =>
    rw [List.cons_append, List.singleton_append, hescape, h]
  | digits _ h hwidth hc =>
    have hpoint : CodePoint.ofNat c.val = c := CodePoint.ext (CodePoint.val_ofNat c.isLt)
    have hlength := length_hex hwidth hc
    rw [List.cons_append, List.cons_append, hescape, h]
    dsimp only
    rw [List.take_left' hlength, List.drop_left' hlength, natOfHexDigits_hex, hpoint]

theorem flatMap_escapePoint_injective (hmark : mark ∈ quoteMarks)
    (h : s.flatMap (escapePoint mark) = t.flatMap (escapePoint mark)) : s = t := by
  have hread : ∀ c u, unescapePoint? ((c :: u).flatMap (escapePoint mark)) =
      some (c, u.flatMap (escapePoint mark)) :=
    fun c u => (escapeForm_escapePoint hmark c).unescapePoint? _
  induction s generalizing t with
  | nil =>
    cases t with
    | nil => rfl
    | cons d t => cases (congrArg unescapePoint? h).trans (hread d t)
  | cons c s ih =>
    cases t with
    | nil => cases (hread c s).symm.trans (congrArg unescapePoint? h)
    | cons d t =>
      have hpair := (hread c s).symm.trans ((congrArg unescapePoint? h).trans (hread d t))
      obtain ⟨hcd, hrest⟩ := Prod.mk.inj (Option.some.inj hpair)
      rw [hcd, ih hrest]

/-- Texts that look the same in quotes are the same. -/
theorem quote_injective (h : quote s = quote t) : s = t := by
  obtain ⟨hmark, hbody⟩ := List.cons.inj h
  rw [← hmark] at hbody
  exact flatMap_escapePoint_injective (quoteMark_mem s) (List.append_cancel_right hbody)

end Text

end LootTables
