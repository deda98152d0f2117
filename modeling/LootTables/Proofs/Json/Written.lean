import LootTables.Proofs.Json.NumberText
import LootTables.Proofs.Json.StringText
import LootTables.Text.Lines

/-!
# Documents as they are written

A value is written as a list of tokens (`Written`), and a document is these tokens with blanks around
them (`Spaced`). The two levels are kept apart, because what can be chosen freely is chosen on one of
them: how a number or a string is spelled is a matter of its token, how many blanks of which kind there
are a matter of the spacing. Unifying the line endings of a document changes the blanks only
(`Spaced.unifyNewlinesFrom`), as no token goes over the end of a line (`ScalarText.isToken`).
-/

namespace LootTables.Json

/-! ## Tokens -/

/-- The token of a value that is no container. -/
inductive ScalarText : Json → Text → Prop
  | null : ScalarText .null "null"
  | true : ScalarText (.bool true) "true"
  | false : ScalarText (.bool false) "false"
  | nan : ScalarText (.number (.double .nan)) "NaN"
  | infinity : ScalarText (.number (.double (.infinite false))) "Infinity"
  | minusInfinity : ScalarText (.number (.double (.infinite true))) "-Infinity"
  | number {n : Number} {x : NumberText} (h : x.Spells n) : ScalarText (.number n) x.text
  | string {value s : Text} (h : StringText value s) : ScalarText (.string value) s

/-- The tokens of items with commas between them. -/
def commaSeparated (items : List (List Text)) : List Text :=
  List.intercalate [(("," : String) : Text)] items

/-- The tokens of a container: its brackets, and its items with commas between them. -/
def enclosed (opening closing : CodePoint) (items : List (List Text)) : List Text :=
  [opening] :: (commaSeparated items ++ [[closing]])

/-- A field is its key, a colon and its value, for which `Item` says how it is written. -/
inductive FieldWritten (Item : Json → List Text → Prop) : Text × Json → List Text → Prop
  | field {name key : Text} {v : Json} {tokens : List Text} (hname : StringText name key)
      (hvalue : Item v tokens) : FieldWritten Item (name, v) (key :: ":" :: tokens)

/-- What a value is written as when `Item` says it for the values directly in it. -/
inductive WrittenWith (Item : Json → List Text → Prop) : Json → List Text → Prop
  | scalar {v : Json} {token : Text} (h : ScalarText v token) : WrittenWith Item v [token]
  | array {items : List Json} {parts : List (List Text)} (h : List.Forall₂ Item items parts) :
      WrittenWith Item (.array items) (enclosed '\x5b' '\x5d' parts)
  | object {fields : List (Text × Json)} {parts : List (List Text)}
      (h : List.Forall₂ (FieldWritten Item) fields parts) :
      WrittenWith Item (.object fields) (enclosed '\x7b' '\x7d' parts)

/-- The value is written as these tokens, and containers lie at most `depth` deep inside each other. -/
def Written : (depth : Nat) → Json → List Text → Prop
  | 0, v, tokens => ∃ token, ScalarText v token ∧ tokens = [token]
  | depth + 1, v, tokens => WrittenWith (Written depth) v tokens

theorem commaSeparated_singleton (part : List Text) : commaSeparated [part] = part :=
  List.intercalate_singleton

theorem commaSeparated_cons_cons (part next : List Text) (parts : List (List Text)) :
    commaSeparated (part :: next :: parts) =
      part ++ ([(((',' : Char) : CodePoint))] :: commaSeparated (next :: parts)) := by
  unfold commaSeparated
  rw [List.intercalate_cons_cons, List.append_assoc]
  rfl

/-- The first item begins the sequence. -/
theorem commaSeparated_cons (part : List Text) (parts : List (List Text)) :
    ∃ more, commaSeparated (part :: parts) = part ++ more := by
  cases parts with
  | nil => exact ⟨[], by rw [commaSeparated_singleton, List.append_nil]⟩
  | cons next parts => exact ⟨_, commaSeparated_cons_cons part next parts⟩

/-- A value may be written where deeper nesting is allowed. -/
theorem Written.succ {depth : Nat} {v : Json} {tokens : List Text} (h : Written depth v tokens) :
    Written (depth + 1) v tokens := by
  induction depth generalizing v tokens with
  | zero =>
    obtain ⟨token, h, rfl⟩ := h
    exact .scalar h
  | succ depth ih =>
    cases h with
    | scalar h => exact .scalar h
    | array h => exact .array (h.imp fun _ _ => ih)
    | object h =>
      refine .object (h.imp fun _ _ hf => ?_)
      cases hf with
      | field hname hv => exact .field hname (ih hv)

theorem Written.mono {depth depth' : Nat} (hle : depth ≤ depth') {v : Json} {tokens : List Text}
    (h : Written depth v tokens) : Written depth' v tokens := by
  induction hle with
  | refl => exact h
  | step _ ih => exact ih.succ

/-! ## Spacing -/

/-- A text of spaces, tabs, line feeds and carriage returns. -/
def AllBlank (s : Text) : Prop :=
  ∀ c ∈ s, c ∈ ([(' ' : Char), ('\t' : Char), ('\n' : Char), ('\r' : Char)] : List CodePoint)

instance (s : Text) : Decidable (AllBlank s) := inferInstanceAs (Decidable (∀ c ∈ s, _))

/-- The text consists of the tokens in order, with blanks before, between and after them. -/
inductive Spaced : List Text → Text → Prop
  | nil {b : Text} (blank : AllBlank b) : Spaced [] b
  | cons {b token s : Text} {tokens : List Text} (blank : AllBlank b) (rest : Spaced tokens s) :
      Spaced (token :: tokens) (b ++ (token ++ s))

/-- There need not be any blanks. -/
theorem spaced_flatten : (tokens : List Text) → Spaced tokens tokens.flatten
  | [] => .nil (List.forall_mem_nil _)
  | _ :: tokens => .cons (b := []) (List.forall_mem_nil _) (spaced_flatten tokens)

/-- A token shows from its first character on, and it has no control characters in it. -/
structure IsToken (token : Text) : Prop where
  visible : ∃ c r, token = c :: r ∧ 0x20 < c.val ∧ c.val < 0x80
  plain : ∀ c ∈ token, 0x20 ≤ c.val

theorem isBlank_of_mem {c : CodePoint}
    (h : c ∈ ([(' ' : Char), ('\t' : Char), ('\n' : Char), ('\r' : Char)] : List CodePoint)) :
    isBlank c ∧ c.val ≤ 0x20 := by
  have hall : ∀ c ∈ ([(' ' : Char), ('\t' : Char), ('\n' : Char), ('\r' : Char)] : List CodePoint),
      isBlank c ∧ c.val ≤ 0x20 := by decide
  exact hall c h

theorem not_isBlank {c : CodePoint} (h : 0x20 < c.val) : isBlank c = false := by
  simp only [isBlank, Bool.or_eq_false_iff, beq_eq_false_iff_ne]
  omega

theorem skipBlanks_append {b : Text} (h : AllBlank b) (s : Text) : skipBlanks (b ++ s) = skipBlanks s :=
  List.dropWhile_append_of_pos fun c hc => (isBlank_of_mem (h c hc)).1

theorem skipBlanks_of_allBlank {b : Text} (h : AllBlank b) : skipBlanks b = [] := by
  rw [← List.append_nil b, skipBlanks_append h]
  rfl

theorem IsToken.skipBlanks_append {token : Text} (h : IsToken token) (s : Text) :
    skipBlanks (token ++ s) = token ++ s := by
  obtain ⟨c, r, rfl, hc, -⟩ := h.visible
  exact List.dropWhile_cons_of_neg (by rw [not_isBlank hc]; exact Bool.false_ne_true)

/-- After the blanks the first token stands at the front. -/
theorem Spaced.exists_of_cons {token : Text} {tokens : List Text} {s : Text}
    (h : Spaced (token :: tokens) s) (htoken : IsToken token) :
    ∃ r, skipBlanks s = token ++ r ∧ Spaced tokens r := by
  cases h with
  | cons blank rest => exact ⟨_, by rw [Json.skipBlanks_append blank, htoken.skipBlanks_append], rest⟩

theorem Spaced.skipBlanks {tokens : List Text} {s : Text} (h : Spaced tokens s)
    (htokens : ∀ t ∈ tokens, IsToken t) : Spaced tokens (Json.skipBlanks s) := by
  cases h with
  | nil blank => exact .nil (by rw [skipBlanks_of_allBlank blank]; exact List.forall_mem_nil _)
  | cons blank rest =>
    rw [skipBlanks_append blank, (htokens _ List.mem_cons_self).skipBlanks_append]
    exact .cons (b := []) (List.forall_mem_nil _) rest

/-- Every token takes a character. -/
theorem Spaced.length_le {tokens : List Text} {s : Text} (h : Spaced tokens s)
    (htokens : ∀ t ∈ tokens, IsToken t) : tokens.length ≤ s.length := by
  induction h with
  | nil => exact Nat.zero_le _
  | @cons b token s tokens _ _ ih =>
    obtain ⟨htoken, hrest⟩ := List.forall_mem_cons.1 htokens
    obtain ⟨c, r, rfl, -, -⟩ := htoken.visible
    have hlength := ih hrest
    simp only [List.length_append, List.length_cons]
    omega

/-! ### Line endings -/

theorem allBlank_unifyNewlinesFrom {b : Text} (h : AllBlank b) (afterReturn : Bool) :
    AllBlank (Text.unifyNewlinesFrom afterReturn b) := by
  induction b generalizing afterReturn with
  | nil => exact List.forall_mem_nil _
  | cons c b ih =>
    obtain ⟨hc, hb⟩ := List.forall_mem_cons.1 h
    unfold Text.unifyNewlinesFrom
    split
    · exact List.forall_mem_cons.2 ⟨by decide, ih hb true⟩
    · split
      · exact ih hb false
      · exact List.forall_mem_cons.2 ⟨hc, ih hb false⟩

/-- What is no control character stays where it is. -/
theorem unifyNewlinesFrom_append {t : Text} (h : ∀ c ∈ t, 0x20 ≤ c.val) (s : Text) :
    Text.unifyNewlinesFrom false (t ++ s) = t ++ Text.unifyNewlinesFrom false s := by
  induction t with
  | nil => rfl
  | cons c t ih =>
    obtain ⟨hc, ht⟩ := List.forall_mem_cons.1 h
    have hreturn : c ≠ (('\r' : Char) : CodePoint) := by
      rintro rfl
      exact absurd hc (by decide)
    rw [List.cons_append, Text.unifyNewlinesFrom, if_neg hreturn, if_neg (by simp), ih ht,
      List.cons_append]

/-- After a token no carriage return is left open, whatever came before it. -/
theorem IsToken.unifyNewlinesFrom_append {token : Text} (h : IsToken token) (afterReturn : Bool)
    (s : Text) : Text.unifyNewlinesFrom afterReturn (token ++ s) =
      token ++ Text.unifyNewlinesFrom false s := by
  obtain ⟨c, r, rfl, hvisible, -⟩ := h.visible
  have hplain := (List.forall_mem_cons.1 h.plain).2
  have hreturn : c ≠ (('\r' : Char) : CodePoint) := by
    rintro rfl
    exact absurd hvisible (by decide)
  have hfeed : ¬ (afterReturn ∧ c = (('\n' : Char) : CodePoint)) := by
    rintro ⟨-, rfl⟩
    exact absurd hvisible (by decide)
  rw [List.cons_append, Text.unifyNewlinesFrom, if_neg hreturn, if_neg hfeed,
    Json.unifyNewlinesFrom_append hplain, List.cons_append]

theorem unifyNewlinesFrom_blank {b token : Text} (hb : AllBlank b) (htoken : IsToken token)
    (afterReturn : Bool) (s : Text) :
    Text.unifyNewlinesFrom afterReturn (b ++ (token ++ s)) =
      Text.unifyNewlinesFrom afterReturn b ++ (token ++ Text.unifyNewlinesFrom false s) := by
  induction b generalizing afterReturn with
  | nil => exact htoken.unifyNewlinesFrom_append afterReturn s
  | cons c b ih =>
    have hb := (List.forall_mem_cons.1 hb).2
    rw [List.cons_append, Text.unifyNewlinesFrom, Text.unifyNewlinesFrom, ih hb, ih hb]
    split
    · rfl
    · split <;> rfl

/-- Unified line endings are blanks like the others. -/
theorem Spaced.unifyNewlinesFrom {tokens : List Text} {s : Text} (h : Spaced tokens s)
    (htokens : ∀ t ∈ tokens, IsToken t) (afterReturn : Bool) :
    Spaced tokens (Text.unifyNewlinesFrom afterReturn s) := by
  induction h generalizing afterReturn with
  | nil blank => exact .nil (allBlank_unifyNewlinesFrom blank afterReturn)
  | cons blank _ ih =>
    obtain ⟨htoken, hrest⟩ := List.forall_mem_cons.1 htokens
    rw [unifyNewlinesFrom_blank blank htoken]
    exact .cons (allBlank_unifyNewlinesFrom blank afterReturn) (ih hrest false)

/-- A document that is not empty does not begin with a byte order mark. -/
theorem Spaced.head?_ne {tokens : List Text} {s : Text} (h : Spaced tokens s)
    (htokens : ∀ t ∈ tokens, IsToken t) : s.head? ≠ some (.ofNat 0xFEFF) := by
  have hmark : (CodePoint.ofNat 0xFEFF).val = 0xFEFF := rfl
  intro hhead
  cases h with
  | nil blank =>
    have hc := (isBlank_of_mem (blank _ (List.mem_of_head? hhead))).2
    rw [hmark] at hc
    omega
  | @cons b token s tokens blank _ =>
    cases b with
    | nil =>
      obtain ⟨c, r, rfl, -, hc⟩ := (htokens token List.mem_cons_self).visible
      obtain rfl := Option.some.inj hhead
      rw [hmark] at hc
      omega
    | cons c b =>
      obtain rfl := Option.some.inj hhead
      have hc := (isBlank_of_mem (blank _ List.mem_cons_self)).2
      rw [hmark] at hc
      omega

/-! ## What tokens look like -/

/-- A text of visible characters is a token. -/
theorem isToken_of_visible {t : Text} (hne : t ≠ []) (h : ∀ c ∈ t, 0x20 < c.val ∧ c.val < 0x80) :
    IsToken t := by
  obtain ⟨c, r, rfl⟩ := List.exists_cons_of_ne_nil hne
  exact ⟨⟨c, r, rfl, h c List.mem_cons_self⟩, fun d hd => (h d hd).1.le⟩

theorem visible_of_isDigit {c : CodePoint} (h : c.isDigit) : 0x20 < c.val ∧ c.val < 0x80 := by
  have hc := of_decide_eq_true h
  omega

theorem NumberText.visible (x : NumberText) : ∀ c ∈ x.text, 0x20 < c.val ∧ c.val < 0x80 := by
  have hdigits : ∀ s : Text, (∀ c ∈ s, c.isDigit) → ∀ c ∈ s, 0x20 < c.val ∧ c.val < 0x80 :=
    fun s hs c hc => visible_of_isDigit (hs c hc)
  have hsign : ∀ c ∈ x.signText, 0x20 < c.val ∧ c.val < 0x80 := by
    unfold signText
    split <;> decide
  have hfraction : ∀ c ∈ x.fractionText, 0x20 < c.val ∧ c.val < 0x80 := by
    unfold fractionText
    split
    · exact List.forall_mem_nil _
    · exact List.forall_mem_cons.2 ⟨by decide, hdigits _ x.fraction_isDigit⟩
  have hexponent : ∀ c ∈ x.exponentText, 0x20 < c.val ∧ c.val < 0x80 := by
    unfold exponentText
    cases x.exponent with
    | none => exact List.forall_mem_nil _
    | some e =>
      have hletters : ∀ c ∈ ([('e' : Char), ('E' : Char)] : List CodePoint),
          0x20 < c.val ∧ c.val < 0x80 := by decide
      have hsigns : ∀ s ∈ ([[], "+", "-"] : List Text), ∀ c ∈ s, 0x20 < c.val ∧ c.val < 0x80 := by
        decide
      exact List.forall_mem_cons.2 ⟨hletters _ e.letter_mem,
        List.forall_mem_append.2 ⟨hsigns _ e.sign_mem, hdigits _ e.isDigit⟩⟩
  exact List.forall_mem_append.2 ⟨hsign, List.forall_mem_append.2
    ⟨hdigits _ x.whole_isDigit, List.forall_mem_append.2 ⟨hfraction, hexponent⟩⟩⟩

/-- A number begins with a digit, perhaps after a minus sign. -/
theorem NumberText.exists_text_eq (x : NumberText) :
    ∃ d t, d.isDigit ∧ (x.text = d :: t ∨ x.text = (('-' : Char) : CodePoint) :: d :: t) := by
  obtain ⟨d, t, hwhole⟩ := List.exists_cons_of_ne_nil x.whole_ne_nil
  have hd := x.whole_isDigit d (hwhole ▸ List.mem_cons_self)
  unfold text signText
  rw [hwhole]
  cases x.negative with
  | true => exact ⟨d, _, hd, .inr rfl⟩
  | false => exact ⟨d, _, hd, .inl rfl⟩

theorem plain_of_isHexDigit {n : Nat} {c : CodePoint} (h : IsHexDigit n c) : 0x20 ≤ c.val := by
  have hall : ∀ c ∈ ("0123456789abcdef" : Text) ++ "0123456789ABCDEF", 0x20 ≤ c.val := by decide
  rcases h with h | h
  · exact hall c (List.mem_append_left _ (List.mem_of_getElem? h))
  · exact hall c (List.mem_append_right _ (List.mem_of_getElem? h))

theorem UnitText.plain {n : Nat} {s : Text} (h : UnitText n s) : ∀ c ∈ s, 0x20 ≤ c.val := by
  obtain ⟨ha, hb, hc, hd⟩ := h
  simp only [List.forall_mem_cons]
  exact ⟨by decide, by decide, plain_of_isHexDigit ha, plain_of_isHexDigit hb,
    plain_of_isHexDigit hc, plain_of_isHexDigit hd, List.forall_mem_nil _⟩

theorem PointText.plain {c : CodePoint} {s : Text} (h : PointText c s) : ∀ d ∈ s, 0x20 ≤ d.val := by
  cases h with
  | raw visible => exact List.forall_mem_singleton.2 visible
  | letter h =>
    have hall : ∀ e ∈ letterEscapes, 0x20 ≤ e.1.val := by decide
    exact List.forall_mem_cons.2 ⟨by decide, List.forall_mem_singleton.2 (hall _ h)⟩
  | unit h => exact h.plain
  | pair hs ht => exact List.forall_mem_append.2 ⟨hs.plain, ht.plain⟩

theorem StringText.isToken {value s : Text} (h : StringText value s) : IsToken s := by
  obtain ⟨-, parts, hparts, rfl⟩ := h
  refine ⟨⟨_, _, rfl, by decide, by decide⟩, List.forall_mem_cons.2 ⟨by decide, ?_⟩⟩
  refine List.forall_mem_append.2 ⟨fun c hc => ?_, List.forall_mem_singleton.2 (by decide)⟩
  obtain ⟨part, hpart, hc⟩ := List.mem_flatten.1 hc
  exact forall_of_forall₂ hparts (fun _ _ h => h.plain) part hpart c hc

theorem ScalarText.isToken {v : Json} {token : Text} (h : ScalarText v token) : IsToken token := by
  cases h with
  | null | true | false | nan | infinity | minusInfinity =>
    exact isToken_of_visible (by decide) (by decide)
  | @number n x h =>
    obtain ⟨d, t, -, htext | htext⟩ := x.exists_text_eq
    · exact isToken_of_visible (htext ▸ List.cons_ne_nil _ _) x.visible
    · exact isToken_of_visible (htext ▸ List.cons_ne_nil _ _) x.visible
  | string h => exact h.isToken

end LootTables.Json
