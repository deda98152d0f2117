import LootTables.Proofs.Json.RepeatedKeys
import LootTables.Proofs.Json.Written

/-!
# Reading takes writing back

The reader takes the tokens of a value off the front of a document and leaves the rest of the tokens,
still with their blanks (`Reads`). Of the items of a container it needs no more than that each of them
is read in this way (`reads_enclosed`), so that the proof for all values (`reads_written`) is an
induction on how deep containers lie inside each other. A whole document is then read as the value that
it is written for (`read_spaced`), less the fields that a later one overwrites.
-/

namespace LootTables.Json

/-! ## Reading tokens -/

/-- The marks that may come after a value. -/
def separators : List CodePoint := [',', '\x5d', '\x7d']

/-- These tokens may come after a value. -/
structure Follows (rest : List Text) : Prop where
  isToken : ∀ t ∈ rest, IsToken t
  head : ∀ t, rest.head? = some t → ∃ c ∈ separators, t = [c]

/-- The tokens are read as `x`, up to where they end, and they do not begin with a separator. -/
structure Reads {α : Type} (read : Reader α) (x : α) (tokens : List Text) : Prop where
  isToken : ∀ t ∈ tokens, IsToken t
  opens : ∃ c t rest, tokens = (c :: t) :: rest ∧ c ∉ separators
  read : ∀ {rest : List Text} {s : Text}, Follows rest → Spaced (tokens ++ rest) s →
    ∃ r, read (skipBlanks s) = .ok (x, r) ∧ Spaced rest r

theorem isToken_of_mem_separators {c : CodePoint} (h : c ∈ separators) : IsToken [c] := by
  have hall : ∀ c ∈ separators, 0x20 < c.val ∧ c.val < 0x80 := by decide
  exact isToken_of_visible (List.cons_ne_nil c []) (List.forall_mem_singleton.2 (hall c h))

theorem follows_nil : Follows [] := ⟨List.forall_mem_nil _, nofun⟩

theorem follows_cons {c : CodePoint} (h : c ∈ separators) {rest : List Text}
    (hrest : ∀ t ∈ rest, IsToken t) : Follows ([c] :: rest) where
  isToken := List.forall_mem_cons.2 ⟨isToken_of_mem_separators h, hrest⟩
  head _ ht := ⟨c, h, (Option.some.inj ht).symm⟩

/-! ### Scalars -/

theorem dropStart?_of_ne {a c : CodePoint} (h : a ≠ c) (w s : Text) :
    Text.dropStart? (a :: w) (c :: s) = none := by
  simp [Text.dropStart?, List.isPrefixOf?, h]

theorem dropStart?_cons (a : CodePoint) (w s : Text) :
    Text.dropStart? (a :: w) (a :: s) = Text.dropStart? w s := by
  simp [Text.dropStart?, List.isPrefixOf?]

/-- No word begins like a number. -/
theorem readWord?_numberText (x : NumberText) (r : Text) : readWord? (x.text ++ r) = none := by
  obtain ⟨d, t, hd, htext⟩ := x.exists_text_eq
  have hwords : ∀ w ∈ words, ∃ a b r, w.1 = a :: b :: r ∧ ¬ a.isDigit ∧ ¬ b.isDigit := by
    simp only [words, List.forall_mem_cons]
    refine ⟨?_, ?_, ?_, ?_, ?_, ?_, List.forall_mem_nil _⟩ <;>
      exact ⟨_, _, _, rfl, by decide, by decide⟩
  unfold readWord?
  rw [List.findSome?_eq_none_iff]
  rintro ⟨word, value⟩ hw
  obtain ⟨a, b, rest, hword, ha, hb⟩ := hwords _ hw
  have hne : ∀ c, ¬ c.isDigit → c ≠ d := by
    rintro c hc rfl
    exact hc hd
  have hnone : Text.dropStart? word (x.text ++ r) = none := by
    obtain rfl : word = a :: b :: rest := hword
    rcases htext with htext | htext
    · rw [htext]
      exact dropStart?_of_ne (hne a ha) _ _
    · rw [htext]
      by_cases hminus : a = (('-' : Char) : CodePoint)
      · rw [hminus, List.cons_append, List.cons_append, dropStart?_cons, dropStart?_of_ne (hne b hb)]
      · exact dropStart?_of_ne hminus _ _
  dsimp only
  rw [hnone]
  rfl

theorem readValue_of_readNumber {depth : Nat} {c : CodePoint} {s r : Text} {n : Number}
    (hc : c ≠ stringMark ∧ c ≠ '\x5b' ∧ c ≠ '\x7b') (hword : readWord? (c :: s) = none)
    (h : readNumber (c :: s) = .ok (n, r)) : readValue depth (c :: s) = .ok (.number n, r) := by
  rw [readValue.eq_def]
  dsimp only
  rw [if_neg hc.1, if_neg hc.2.1, if_neg hc.2.2, hword, h]
  rfl

/-- The token of a scalar is read, provided that no number goes on after it. -/
theorem readValue_scalarText {v : Json} {token : Text} (h : ScalarText v token) (depth : Nat)
    {r : Text} (hr : EndsNumber r) : readValue depth (token ++ r) = .ok (v, r) := by
  cases h with
  | null | true | false | nan | infinity | minusInfinity => cases depth <;> rfl
  | @number n x h =>
    have hnumber := readNumber_text h hr
    have hword := readWord?_numberText x r
    have hne : ∀ c : CodePoint, c.isDigit ∨ c = '-' → c ≠ stringMark ∧ c ≠ '\x5b' ∧ c ≠ '\x7b' := by
      intro c hc
      refine ⟨?_, ?_, ?_⟩ <;> rintro rfl <;> exact absurd hc (by decide)
    obtain ⟨d, t, hd, htext | htext⟩ := x.exists_text_eq
    · rw [htext] at hnumber hword ⊢
      exact readValue_of_readNumber (hne d (.inl hd)) hword hnumber
    · rw [htext] at hnumber hword ⊢
      exact readValue_of_readNumber (hne _ (.inr rfl)) hword hnumber
  | @string value s h =>
    have hread := readString_stringText h r
    obtain ⟨-, parts, -, rfl⟩ := h
    rw [readValue.eq_def, List.cons_append]
    dsimp only
    rw [if_pos rfl, ← List.cons_append, Reader.within_eq_ok_iff.2 hread]
    rfl

/-- A blank or a separator ends a number. -/
theorem endsNumber_of_spaced {rest : List Text} {r : Text} (hrest : Follows rest)
    (h : Spaced rest r) : EndsNumber r := by
  have hblank : ∀ c ∈ ([(' ' : Char), ('\t' : Char), ('\n' : Char), ('\r' : Char)] : List CodePoint),
      ¬ c.isDigit ∧ c ∉ ([('.' : Char), ('e' : Char), ('E' : Char)] : List CodePoint) := by decide
  have hseparator : ∀ c ∈ separators,
      ¬ c.isDigit ∧ c ∉ ([('.' : Char), ('e' : Char), ('E' : Char)] : List CodePoint) := by decide
  intro c hc
  cases h with
  | nil blank => exact hblank c (blank c (List.mem_of_head? hc))
  | @cons b token s tokens blank _ =>
    cases b with
    | nil =>
      obtain ⟨d, hd, rfl⟩ := hrest.head token rfl
      cases hc
      exact hseparator c hd
    | cons d b =>
      cases hc
      exact hblank c (blank c List.mem_cons_self)

/-- A scalar is read as itself. -/
theorem reads_scalar {v : Json} {token : Text} (h : ScalarText v token) (depth : Nat) :
    Reads (readValue depth) v [token] where
  isToken := List.forall_mem_singleton.2 h.isToken
  opens := by
    cases h with
    | null | true | false | nan | infinity | minusInfinity => exact ⟨_, _, _, rfl, by decide⟩
    | @number n x h =>
      obtain ⟨d, t, hd, htext | htext⟩ := x.exists_text_eq
      · have hall : ∀ c ∈ separators, ¬ c.isDigit := by decide
        exact ⟨d, t, [], by rw [htext], fun hmem => hall d hmem hd⟩
      · exact ⟨_, d :: t, [], by rw [htext], by decide⟩
    | string h =>
      obtain ⟨-, parts, -, rfl⟩ := h
      exact ⟨_, _, _, rfl, by decide⟩
  read := by
    intro rest s hrest hs
    obtain ⟨r, hskip, hr⟩ := hs.exists_of_cons h.isToken
    exact ⟨r, by rw [hskip, readValue_scalarText h depth (endsNumber_of_spaced hrest hr)], hr⟩

/-! ### Containers -/

section

variable {α : Type} {item : Reader α} {closing : CodePoint} {xs : List α}
  {parts : List (List Text)} {rest : List Text} {s : Text}

/-- Between the items stand tokens, and there are at least as many of them as items. -/
theorem isToken_commaSeparated (h : List.Forall₂ (Reads item) xs parts) :
    (∀ t ∈ commaSeparated parts, IsToken t) ∧ xs.length ≤ (commaSeparated parts).length := by
  induction h with
  | nil => exact ⟨List.forall_mem_nil _, Nat.zero_le _⟩
  | @cons x part xs parts hx hparts ih =>
    obtain ⟨c, t, ts, rfl, -⟩ := hx.opens
    cases hparts with
    | nil =>
      rw [commaSeparated_singleton]
      exact ⟨hx.isToken, Nat.succ_le_succ (Nat.zero_le _)⟩
    | cons =>
      obtain ⟨htokens, hlength⟩ := ih
      rw [commaSeparated_cons_cons]
      refine ⟨List.forall_mem_append.2 ⟨hx.isToken, List.forall_mem_cons.2
        ⟨isToken_of_mem_separators (by decide), htokens⟩⟩, ?_⟩
      simp only [List.length_append, List.length_cons] at hlength ⊢
      omega

/-- Items are read one by one, up to the closing bracket. -/
theorem readSequence_reads (h : List.Forall₂ (Reads item) xs parts) (hxs : xs ≠ [])
    (hclosing : closing ∈ separators) (hcomma : closing ≠ ',') (hrest : ∀ t ∈ rest, IsToken t)
    {fuel : Nat} (hfuel : xs.length ≤ fuel)
    (hs : Spaced (commaSeparated parts ++ [closing] :: rest) s) :
    ∃ r, readSequence item closing fuel (skipBlanks s) = .ok (xs, r) ∧ Spaced rest r := by
  induction h generalizing fuel s with
  | nil => exact absurd rfl hxs
  | @cons x part xs parts hx hparts ih =>
    cases fuel with
    | zero => cases hfuel
    | succ fuel =>
      unfold readSequence
      cases hparts with
      | nil =>
        rw [commaSeparated_singleton] at hs
        obtain ⟨r, hread, hr⟩ := hx.read (follows_cons hclosing hrest) hs
        obtain ⟨r', hskip, hr'⟩ := hr.exists_of_cons (isToken_of_mem_separators hclosing)
        rw [hread, ok_bind]
        dsimp only
        rw [hskip]
        exact ⟨r', if_pos rfl, hr'⟩
      | @cons x' part' xs parts hx' hparts =>
        rw [commaSeparated_cons_cons, List.append_assoc] at hs
        have hmore := (isToken_commaSeparated (.cons hx' hparts)).1
        have htokens : ∀ t ∈ commaSeparated (part' :: parts) ++ [closing] :: rest, IsToken t :=
          List.forall_mem_append.2
            ⟨hmore, List.forall_mem_cons.2 ⟨isToken_of_mem_separators hclosing, hrest⟩⟩
        obtain ⟨r, hread, hr⟩ := hx.read (follows_cons (by decide) htokens) hs
        obtain ⟨r', hskip, hr'⟩ := hr.exists_of_cons (isToken_of_mem_separators (by decide))
        obtain ⟨r'', hnext, hr''⟩ := ih (List.cons_ne_nil x' xs) (Nat.le_of_succ_le_succ hfuel) hr'
        rw [hread, ok_bind]
        dsimp only
        rw [hskip]
        refine ⟨r'', ?_, hr''⟩
        rw [List.singleton_append]
        dsimp only
        rw [if_neg (Ne.symm hcomma), if_pos rfl, hnext]
        rfl

/-- The items between the brackets of a container, of which the opening one is read. -/
theorem readItems_reads (h : List.Forall₂ (Reads item) xs parts) (hclosing : closing ∈ separators)
    (hcomma : closing ≠ ',') (hrest : ∀ t ∈ rest, IsToken t)
    (hs : Spaced (commaSeparated parts ++ [closing] :: rest) s) :
    ∃ r, readItems item closing s = .ok (xs, r) ∧ Spaced rest r := by
  have hbracket := isToken_of_mem_separators hclosing
  unfold readItems
  cases h with
  | nil =>
    obtain ⟨r, hskip, hr⟩ := hs.exists_of_cons hbracket
    dsimp only
    rw [hskip]
    exact ⟨r, if_pos rfl, hr⟩
  | @cons x part xs parts hx hparts =>
    have hitems := List.Forall₂.cons hx hparts
    obtain ⟨hmore, hlength⟩ := isToken_commaSeparated hitems
    have htokens : ∀ t ∈ commaSeparated (part :: parts) ++ [closing] :: rest, IsToken t :=
      List.forall_mem_append.2 ⟨hmore, List.forall_mem_cons.2 ⟨hbracket, hrest⟩⟩
    -- Every item takes a character, so the length of the text is fuel enough.
    have hfuel : (x :: xs).length ≤ (skipBlanks s).length := by
      have htext := (hs.skipBlanks htokens).length_le htokens
      rw [List.length_append] at htext
      omega
    obtain ⟨r, hread, hr⟩ :=
      readSequence_reads hitems (List.cons_ne_nil x xs) hclosing hcomma hrest hfuel hs
    obtain ⟨c, t, ts, rfl, hc⟩ := hx.opens
    obtain ⟨more, htail⟩ := commaSeparated_cons ((c :: t) :: ts) parts
    rw [htail] at hs
    obtain ⟨r', hskip, -⟩ := hs.exists_of_cons (hx.isToken _ List.mem_cons_self)
    have hne : c ≠ closing := fun heq => hc (heq ▸ hclosing)
    refine ⟨r, ?_, hr⟩
    rw [hskip, List.cons_append] at hread
    dsimp only
    rw [hskip, List.cons_append]
    dsimp only
    rw [if_neg hne]
    exact hread

end

/-- A container is read when its items are. -/
theorem reads_enclosed {α β : Type} {item : Reader α} {read : Reader β} {opening closing : CodePoint}
    {xs : List α} {y : β} {parts : List (List Text)} (hopening : IsToken [opening])
    (hopens : opening ∉ separators) (hclosing : closing ∈ separators) (hcomma : closing ≠ ',')
    (h : List.Forall₂ (Reads item) xs parts)
    (hread : ∀ r r', readItems item closing r = .ok (xs, r') → read (opening :: r) = .ok (y, r')) :
    Reads read y (enclosed opening closing parts) where
  isToken :=
    List.forall_mem_cons.2 ⟨hopening, List.forall_mem_append.2
      ⟨(isToken_commaSeparated h).1, List.forall_mem_singleton.2 (isToken_of_mem_separators hclosing)⟩⟩
  opens := ⟨opening, [], _, rfl, hopens⟩
  read := by
    intro rest s hrest hs
    rw [enclosed, List.cons_append, List.append_assoc] at hs
    obtain ⟨r, hskip, hr⟩ := hs.exists_of_cons hopening
    obtain ⟨r', hitems, hr'⟩ := readItems_reads h hclosing hcomma hrest.isToken hr
    exact ⟨r', by rw [hskip]; exact hread r r' hitems, hr'⟩

/-- A field is read when its value is. -/
theorem reads_field {value : Reader Json} {Item : Json → List Text → Prop}
    (hvalue : ∀ v tokens, Item v tokens → Reads value v.lastKept tokens) {f : Text × Json}
    {tokens : List Text} (h : FieldWritten Item f tokens) :
    Reads (readField value) (f.1, f.2.lastKept) tokens := by
  cases h with
  | @field name key v tokens hname hv =>
    have hread := hvalue v tokens hv
    have hcolon : IsToken ":" := isToken_of_visible (by decide) (by decide)
    refine ⟨List.forall_mem_cons.2 ⟨hname.isToken, List.forall_mem_cons.2 ⟨hcolon, hread.isToken⟩⟩,
      ?_, ?_⟩
    · obtain ⟨-, parts, -, rfl⟩ := hname
      exact ⟨_, _, _, rfl, by decide⟩
    · intro rest s hrest hs
      obtain ⟨r, hskip, hr⟩ := hs.exists_of_cons hname.isToken
      obtain ⟨r', hskip', hr'⟩ := hr.exists_of_cons hcolon
      obtain ⟨r'', hread, hr''⟩ := hread.read hrest hr'
      have hstring := readString_stringText hname r
      obtain ⟨-, parts, -, rfl⟩ := hname
      refine ⟨r'', ?_, hr''⟩
      rw [hskip]
      unfold readField
      rw [List.cons_append] at hstring ⊢
      dsimp only
      rw [if_pos rfl, hstring, ok_bind]
      dsimp only
      rw [hskip', show (":" : Text) ++ r' = (((':' : Char) : CodePoint) :: r') from rfl]
      dsimp only
      rw [if_pos rfl, hread]
      rfl

/-! ### Values -/

/-- What a value is written as is read as the value, less the overwritten fields. -/
theorem reads_written {depth : Nat} {v : Json} {tokens : List Text} (h : Written depth v tokens) :
    Reads (readValue depth) v.lastKept tokens := by
  have hscalar : ∀ {v : Json} {token : Text} (depth : Nat), ScalarText v token →
      Reads (readValue depth) v.lastKept [token] := by
    intro v token depth h
    have hkept : v.lastKept = v := by cases h <;> rfl
    rw [hkept]
    exact reads_scalar h depth
  induction depth generalizing v tokens with
  | zero =>
    obtain ⟨token, h, rfl⟩ := h
    exact hscalar 0 h
  | succ depth ih =>
    cases h with
    | scalar h => exact hscalar (depth + 1) h
    | @array items parts h =>
      have hitems : List.Forall₂ (Reads (readValue depth)) (items.map lastKept) parts :=
        List.forall₂_map_left_iff.2 (h.imp fun _ _ => ih)
      refine reads_enclosed (isToken_of_visible (by decide) (by decide)) (by decide) (by decide)
        (by decide) hitems fun r r' hread => ?_
      rw [readValue.eq_def]
      dsimp only
      rw [if_neg (by decide), if_pos rfl, Reader.within_eq_ok_iff.2 hread, lastKept,
        lastKeptItems_eq_map]
      rfl
    | @object fields parts h =>
      have hfields : List.Forall₂ (Reads (readField (readValue depth)))
          (fields.map fun f => (f.1, f.2.lastKept)) parts :=
        List.forall₂_map_left_iff.2 (h.imp fun _ _ hf => reads_field (fun _ _ => ih) hf)
      refine reads_enclosed (isToken_of_visible (by decide) (by decide)) (by decide) (by decide)
        (by decide) hfields fun r r' hread => ?_
      rw [readValue.eq_def]
      dsimp only
      rw [if_neg (by decide), if_neg (by decide), if_pos rfl, Reader.within_eq_ok_iff.2 hread, ok_bind]
      dsimp only
      rw [ofMembers_eq_lastValues, lastKept, lastKeptFields_eq_map]
      rfl

/-! ## Documents -/

/-- A document is read, once its line endings are unified, when its containers lie at most as deep inside
each other as the reader opens them. -/
theorem read_spaced {depth limit : Nat} (hdepth : depth ≤ limit) {v : Json} {tokens : List Text}
    (h : Written depth v tokens) {s : Text} (hs : Spaced tokens s) :
    read s.unifyNewlines limit = .ok v.lastKept := by
  have hreads := reads_written (h.mono hdepth)
  have hunified : Spaced tokens s.unifyNewlines := hs.unifyNewlinesFrom hreads.isToken false
  have hall : Spaced (tokens ++ []) s.unifyNewlines := by rwa [List.append_nil]
  obtain ⟨r, hread, hr⟩ := hreads.read follows_nil hall
  unfold read
  rw [if_neg (hunified.head?_ne hreads.isToken), hread]
  cases hr with
  | nil blank =>
    dsimp only
    rw [skipBlanks_of_allBlank blank]

end LootTables.Json
