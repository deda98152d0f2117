import LootTables.Json.Reader
import LootTables.Proofs.Result

/-!
# Strings as they are written

Between the marks of a string, each code point is written as itself, with one of the letters that stand
for it, as a 16-bit unit in hexadecimal digits, or as two units that make a surrogate pair
(`PointText`). The reader takes the same pieces apart (`PointPieces`) and puts the units together again.

Two units are one code point wherever the first is a high and the second a low surrogate, so a text in
which such surrogates follow each other cannot be written down. It is the only one
(`readString_stringText`).
-/

namespace LootTables.Json

/-! ### Spelling a code point -/

/-- The digit has the value `n` in hexadecimal numerals of either case. -/
def IsHexDigit (n : Nat) (digit : CodePoint) : Prop :=
  ("0123456789abcdef" : Text)[n]? = some digit ∨ ("0123456789ABCDEF" : Text)[n]? = some digit

/-- The escape of a 16-bit unit. -/
inductive UnitText : Nat → Text → Prop
  | digits {a b c d : Nat} {a' b' c' d' : CodePoint} (ha : IsHexDigit a a') (hb : IsHexDigit b b')
      (hc : IsHexDigit c c') (hd : IsHexDigit d d') :
      UnitText (a * 0x1000 + b * 0x100 + c * 0x10 + d) ['\\', 'u', a', b', c', d']

/-- The letters of escapes, each with what it stands for. -/
def letterEscapes : List (CodePoint × CodePoint) :=
  [('\x22', '\x22'), ('\\', '\\'), ('/', '/'), ('b', '\x08'), ('f', '\x0c'), ('n', '\x0a'),
    ('r', '\x0d'), ('t', '\x09')]

/-- The unit is the first half of a surrogate pair. -/
def IsHigh (n : Nat) : Prop := 0xD800 ≤ n ∧ n < 0xDC00

/-- The unit is the second half of a surrogate pair. -/
def IsLow (n : Nat) : Prop := 0xDC00 ≤ n ∧ n < 0xE000

instance (n : Nat) : Decidable (IsHigh n) := inferInstanceAs (Decidable (_ ∧ _))

instance (n : Nat) : Decidable (IsLow n) := inferInstanceAs (Decidable (_ ∧ _))

/-- The code point is the one that a surrogate pair makes. -/
def IsPair (high low : Nat) (c : CodePoint) : Prop :=
  IsHigh high ∧ IsLow low ∧ c.val = 0x10000 + (high - 0xD800) * 0x400 + (low - 0xDC00)

/-- What a code point is written as. -/
inductive PointText : CodePoint → Text → Prop
  /-- As itself, unless it is a control character or has a meaning of its own. -/
  | raw {c : CodePoint} (visible : 0x20 ≤ c.val) (hmark : c ≠ stringMark) (hescape : c ≠ '\\') :
      PointText c [c]
  | letter {c letter : CodePoint} (h : (letter, c) ∈ letterEscapes) : PointText c ['\\', letter]
  | unit {c : CodePoint} {s : Text} (h : UnitText c.val s) : PointText c s
  | pair {c : CodePoint} {high low : Nat} {s t : Text} (hs : UnitText high s) (ht : UnitText low t)
      (h : IsPair high low c) : PointText c (s ++ t)

/-- No low surrogate comes directly after a high one. -/
def KeepsHalvesApart (s : Text) : Prop := s.IsChain fun c d => ¬ (IsHigh c.val ∧ IsLow d.val)

instance (s : Text) : Decidable (KeepsHalvesApart s) := inferInstanceAs (Decidable (List.IsChain _ s))

/-- What a text is written as, with the marks around it. -/
def StringText (value s : Text) : Prop :=
  KeepsHalvesApart value ∧ ∃ parts : List Text, List.Forall₂ PointText value parts ∧
    s = stringMark :: (parts.flatten ++ [stringMark])

/-- A text may be written as it is when nothing in it has to be escaped. -/
theorem stringText_raw {s : Text} (h : ∀ c ∈ s, 0x20 ≤ c.val ∧ c ≠ stringMark ∧ c ≠ '\\')
    (hhalves : KeepsHalvesApart s) : StringText s (stringMark :: (s ++ [stringMark])) := by
  refine ⟨hhalves, s.map fun c => [c], ?_, ?_⟩
  · refine List.forall₂_map_right_iff.2 (List.forall₂_same.2 fun c hc => ?_)
    obtain ⟨visible, hmark, hescape⟩ := h c hc
    exact .raw visible hmark hescape
  · rw [← List.flatMap_def, List.flatMap_singleton']

/-! ### Reading an escape -/

theorem hexDigit?_of_isHexDigit {n : Nat} {digit : CodePoint} (h : IsHexDigit n digit) :
    hexDigit? digit = some n := by
  have hvalue : ∀ digits : Text, (∀ (i : Nat) (hi : i < digits.length), hexDigit? digits[i] = some i) →
      digits[n]? = some digit → hexDigit? digit = some n := by
    intro digits hdigits hn
    obtain ⟨hlt, rfl⟩ := List.getElem?_eq_some_iff.1 hn
    exact hdigits n hlt
  rcases h with h | h
  · exact hvalue _ (by decide) h
  · exact hvalue _ (by decide) h

theorem letterEscape?_of_mem {letter c : CodePoint} (h : (letter, c) ∈ letterEscapes) :
    letterEscape? letter = some c ∧ letter ≠ 'u' := by
  have hall : ∀ e ∈ letterEscapes, letterEscape? e.1 = some e.2 ∧ e.1 ≠ (('u' : Char) : CodePoint) := by
    decide
  exact hall (letter, c) h

/-! ### Reading the pieces -/

/-- The pieces as which a code point is read. -/
inductive PointPieces : CodePoint → List Piece → Prop
  | point (c : CodePoint) : PointPieces c [.point c]
  | unit (c : CodePoint) : PointPieces c [.unit c.val]
  | pair {c : CodePoint} {high low : Nat} (h : IsPair high low c) :
      PointPieces c [.unit high, .unit low]

/-- Pieces in front of those that a text is read as. -/
def prepend (pieces : List Piece) (x : Except Failure (List Piece × Text)) :
    Except Failure (List Piece × Text) := x.map fun (rest, r) => (pieces ++ rest, r)

section

variable {opening : Text}

theorem readPieces_raw {c : CodePoint} (visible : 0x20 ≤ c.val) (hmark : c ≠ stringMark)
    (hescape : c ≠ '\\') (r : Text) :
    readPieces opening (c :: r) = prepend [.point c] (readPieces opening r) := by
  rw [readPieces.eq_def]
  dsimp only
  rw [if_neg hmark, if_neg hescape, if_neg (Nat.not_lt.2 visible)]
  rfl

theorem readPieces_letter {c letter : CodePoint} (h : (letter, c) ∈ letterEscapes) (r : Text) :
    readPieces opening ('\\' :: letter :: r) = prepend [.point c] (readPieces opening r) := by
  obtain ⟨hletter, hunit⟩ := letterEscape?_of_mem h
  rw [readPieces.eq_def]
  dsimp only
  rw [if_neg (by decide), if_pos rfl, if_neg hunit, hletter]
  rfl

theorem readPieces_unit {n : Nat} {s : Text} (h : UnitText n s) {r : Text} (hr : r ≠ []) :
    readPieces opening (s ++ r) = prepend [.unit n] (readPieces opening r) := by
  obtain ⟨ha, hb, hc, hd⟩ := h
  rename_i a b c d a' b' c' d'
  have hunit : hexUnit? a' b' c' d' = some (a * 0x1000 + b * 0x100 + c * 0x10 + d) := by
    unfold hexUnit?
    rw [hexDigit?_of_isHexDigit ha, hexDigit?_of_isHexDigit hb, hexDigit?_of_isHexDigit hc,
      hexDigit?_of_isHexDigit hd]
    exact congrArg some (by omega)
  have hmore : r.isEmpty = false := List.isEmpty_eq_false_iff.2 hr
  rw [readPieces.eq_def]
  simp only [List.cons_append, List.nil_append]
  rw [if_neg (by decide), if_pos trivial, if_pos trivial]
  simp only [hunit, hmore]
  rfl

theorem prepend_prepend (ps qs : List Piece) (x : Except Failure (List Piece × Text)) :
    prepend ps (prepend qs x) = prepend (ps ++ qs) x := by
  cases x with
  | error e => rfl
  | ok x => exact congrArg (fun ps => Except.ok (ps, x.2)) (List.append_assoc ps qs x.1).symm

/-- What a code point is written as is read as its pieces, provided that the string goes on. -/
theorem readPieces_pointText {c : CodePoint} {s : Text} (h : PointText c s) :
    ∃ pieces, PointPieces c pieces ∧
      ∀ r, r ≠ [] → readPieces opening (s ++ r) = prepend pieces (readPieces opening r) := by
  cases h with
  | raw visible hmark hescape => exact ⟨_, .point c, fun r _ => readPieces_raw visible hmark hescape r⟩
  | letter h => exact ⟨_, .point c, fun r _ => readPieces_letter h r⟩
  | unit h => exact ⟨_, .unit c, fun r hr => readPieces_unit h hr⟩
  | pair hs ht h =>
    refine ⟨_, .pair h, fun r hr => ?_⟩
    rw [List.append_assoc, readPieces_unit hs (List.append_ne_nil_of_right_ne_nil _ hr),
      readPieces_unit ht hr, prepend_prepend]
    rfl

end

theorem readPieces_parts {value : Text} {parts : List Text} (h : List.Forall₂ PointText value parts)
    (opening r : Text) : ∃ pieces, List.Forall₂ PointPieces value pieces ∧
      readPieces opening (parts.flatten ++ stringMark :: r) = .ok (pieces.flatten, r) := by
  induction h with
  | nil =>
    refine ⟨[], .nil, ?_⟩
    rw [List.flatten_nil, List.nil_append, readPieces.eq_def]
    exact if_pos rfl
  | @cons c part value parts hc _ ih =>
    obtain ⟨pieces, hpieces, hpart⟩ := readPieces_pointText hc
    obtain ⟨rest, hrest, hparts⟩ := ih
    refine ⟨pieces :: rest, .cons hpieces hrest, ?_⟩
    rw [List.flatten_cons, List.append_assoc, hpart _ (by simp), hparts]
    rfl

/-! ### Putting the pieces together -/

theorem ofNat_val (c : CodePoint) : CodePoint.ofNat c.val = c :=
  CodePoint.ext (CodePoint.val_ofNat c.isLt)

/-- A unit stands for itself unless it is the first half of a pair. -/
theorem spell_unit {n : Nat} {rest : List Piece}
    (h : ∀ m more, rest = .unit m :: more → ¬ (IsHigh n ∧ IsLow m)) :
    spell (.unit n :: rest) = .ofNat n :: spell rest := by
  cases rest with
  | nil => rfl
  | cons piece rest =>
    cases piece with
    | point c => rfl
    | unit m =>
      rw [spell, if_neg]
      rintro ⟨hhigh, hhigh', hlow, hlow'⟩
      exact h m rest rfl ⟨⟨hhigh, hhigh'⟩, hlow, hlow'⟩

theorem spell_pair {c : CodePoint} {high low : Nat} (h : IsPair high low c) (rest : List Piece) :
    spell (.unit high :: .unit low :: rest) = c :: spell rest := by
  obtain ⟨⟨hhigh, hhigh'⟩, ⟨hlow, hlow'⟩, hc⟩ := h
  rw [spell, if_pos ⟨hhigh, hhigh', hlow, hlow'⟩, ← hc, ofNat_val]

/-- Pieces that begin with a low surrogate are those of a text that begins with it. -/
theorem head_of_isLow {value : Text} {pieces : List (List Piece)} {m : Nat} {more : List Piece}
    (h : List.Forall₂ PointPieces value pieces) (hpieces : pieces.flatten = .unit m :: more)
    (hm : IsLow m) : ∃ d rest, value = d :: rest ∧ d.val = m := by
  cases h with
  | nil => cases hpieces
  | @cons d _ rest _ hd _ =>
    cases hd with
    | point => cases hpieces
    | unit => exact ⟨d, rest, rfl, by cases hpieces; rfl⟩
    | pair hpair =>
      cases hpieces
      obtain ⟨⟨-, hhigh⟩, -, -⟩ := hpair
      exact absurd hm.1 (Nat.not_le.2 hhigh)

/-- The pieces of a text spell it when no unit of it joins the next one. -/
theorem spell_pieces {value : Text} {pieces : List (List Piece)}
    (h : List.Forall₂ PointPieces value pieces) (happart : KeepsHalvesApart value) :
    spell pieces.flatten = value := by
  induction h with
  | nil => rfl
  | @cons c ps value pieces hc hrest ih =>
    have ih := ih (List.IsChain.of_cons happart)
    cases hc with
    | point => exact congrArg (c :: ·) ih
    | unit =>
      rw [List.flatten_cons, List.singleton_append, spell_unit, ih, ofNat_val]
      rintro m more hmore ⟨hhigh, hlow⟩
      obtain ⟨d, rest, rfl, hd⟩ := head_of_isLow hrest hmore hlow
      exact (List.isChain_cons_cons.1 happart).1 ⟨hhigh, hd ▸ hlow⟩
    | pair hpair => rw [List.flatten_cons, List.cons_append, List.singleton_append, spell_pair hpair, ih]

/-! ### Strings -/

/-- A string is read off the front of a text. -/
theorem readString_stringText {value s : Text} (h : StringText value s) (r : Text) :
    readString (s ++ r) = .ok (value, r) := by
  obtain ⟨happart, parts, hparts, rfl⟩ := h
  rw [List.cons_append, List.append_assoc, List.singleton_append]
  obtain ⟨pieces, hpieces, hread⟩ :=
    readPieces_parts hparts (stringMark :: (parts.flatten ++ stringMark :: r)) r
  unfold readString
  rw [List.tail_cons, hread, ← spell_pieces hpieces happart]
  rfl

end LootTables.Json
