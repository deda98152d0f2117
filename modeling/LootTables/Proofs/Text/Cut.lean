import Mathlib.Data.List.Forall2
import LootTables.Text

/-!
# Where two texts can be cut alike

A generated text is taken apart from the left. Two things make the place of a cut certain: a fixed
beginning, of which one can be told from another (`append_ne_append`), and a piece that ends at the
first of some marks, because it holds none of them itself (`append_inj_of_avoids`). The marks are
those that `BeginsWith` what follows, and that the piece `Avoids`.

Where pieces without a separator in them are joined by it, splitting gives back the pieces
(`split_join`).

A sequence of items is taken apart item by item. `Delimited` collects what this needs: that one item
can be cut off, and that what stands between two items cannot be taken for what follows the last.
-/

namespace LootTables.Text

/-- None of the marks occurs in the text. -/
def Avoids (marks : List CodePoint) (s : Text) : Prop := ∀ c ∈ s, c ∉ marks

/-- The text begins with one of the marks. -/
def BeginsWith (marks : List CodePoint) (s : Text) : Prop := ∃ c ∈ marks, ∃ t, s = c :: t

instance (marks : List CodePoint) (s : Text) : Decidable (Avoids marks s) :=
  inferInstanceAs (Decidable (∀ c ∈ s, c ∉ marks))

theorem beginsWith_cons {marks : List CodePoint} {c : CodePoint} (h : c ∈ marks) (s : Text) :
    BeginsWith marks (c :: s) := ⟨c, h, s, rfl⟩

theorem BeginsWith.ne_nil {marks : List CodePoint} {s : Text} (h : BeginsWith marks s) : s ≠ [] := by
  obtain ⟨c, -, t, rfl⟩ := h
  exact List.cons_ne_nil c t

section

variable {marks : List CodePoint} {s t : Text}

theorem avoids_append : Avoids marks (s ++ t) ↔ Avoids marks s ∧ Avoids marks t := by
  constructor
  · intro h
    exact ⟨fun c hc => h c (List.mem_append_left t hc), fun c hc => h c (List.mem_append_right s hc)⟩
  · rintro ⟨hs, ht⟩ c hc
    rcases List.mem_append.1 hc with hc | hc
    · exact hs c hc
    · exact ht c hc

/-- A part of a text avoids what the text avoids. -/
theorem Avoids.subset (h : Avoids marks s) (hsub : ∀ c ∈ t, c ∈ s) : Avoids marks t :=
  fun c hc => h c (hsub c hc)

end

/-- Texts whose beginnings differ are different. -/
theorem append_ne_append {p q : Text} (hpq : ¬ p <+: q) (hqp : ¬ q <+: p) (r s : Text) :
    p ++ r ≠ q ++ s := by
  intro h
  have hp : p <+: q ++ s := ⟨r, h⟩
  rcases List.prefix_or_prefix_of_prefix hp (List.prefix_append q s) with h | h
  · exact hpq h
  · exact hqp h

/-- A text that avoids the marks is cut off at the first of them. -/
theorem append_inj_of_avoids {marks : List CodePoint} {a b r s : Text} (ha : Avoids marks a)
    (hb : Avoids marks b) (hr : BeginsWith marks r) (hs : BeginsWith marks s)
    (h : a ++ r = b ++ s) : a = b ∧ r = s := by
  induction a generalizing b with
  | nil =>
    cases b with
    | nil => exact ⟨rfl, h⟩
    | cons c b =>
      obtain ⟨m, hm, t, rfl⟩ := hr
      have hmc : m = c := (List.cons.inj h).1
      exact absurd (hmc ▸ hm) (hb c List.mem_cons_self)
  | cons c a ih =>
    cases b with
    | nil =>
      obtain ⟨m, hm, t, rfl⟩ := hs
      have hcm : c = m := (List.cons.inj h).1
      exact absurd (hcm ▸ hm) (ha c List.mem_cons_self)
    | cons d b =>
      obtain ⟨hcd, hrest⟩ := List.cons.inj h
      obtain ⟨hab, hrs⟩ := ih (fun x hx => ha x (List.mem_cons_of_mem _ hx))
        (fun x hx => hb x (List.mem_cons_of_mem _ hx)) hrest
      exact ⟨hcd ▸ hab ▸ rfl, hrs⟩

theorem not_beginsWith {marks others : List CodePoint} (h : ∀ c ∈ marks, c ∉ others) {s : Text}
    (hs : BeginsWith marks s) : ¬ BeginsWith others s := by
  rintro ⟨d, hd, t, rfl⟩
  obtain ⟨c, hc, u, hu⟩ := hs
  have hdc : d = c := (List.cons.inj hu).1
  exact h c hc (hdc ▸ hd)

/-! ### Sequences -/

theorem join_cons (separator s : Text) (texts : List Text) :
    join separator (s :: texts) = s ++ texts.flatMap (separator ++ ·) := by
  induction texts generalizing s with
  | nil => simp [join]
  | cons t texts ih =>
    have htail : join separator (t :: texts) = t ++ texts.flatMap (separator ++ ·) := ih t
    unfold join at htail ⊢
    rw [List.intercalate_cons_cons, htail]
    simp

theorem split_of_notMem {c : CodePoint} {s : Text} (h : c ∉ s) : split c s = [s] := by
  induction s with
  | nil => rfl
  | cons d s ih =>
    rw [List.mem_cons, not_or] at h
    rw [split, if_neg (Ne.symm h.1), ih h.2]

theorem split_append_cons {c : CodePoint} {s : Text} (h : c ∉ s) (r : Text) :
    split c (s ++ c :: r) = s :: split c r := by
  induction s with
  | nil => rw [List.nil_append, split, if_pos rfl]
  | cons d s ih =>
    rw [List.mem_cons, not_or] at h
    rw [List.cons_append, split, if_neg (Ne.symm h.1), ih h.2]

/-- Of pieces with a separator in front of each but the first, splitting gives the pieces. -/
theorem split_append_flatMap {c : CodePoint} {piece : Text} {pieces : List Text} (hpiece : c ∉ piece)
    (h : ∀ piece ∈ pieces, c ∉ piece) :
    split c (piece ++ pieces.flatMap ([c] ++ ·)) = piece :: pieces := by
  induction pieces generalizing piece with
  | nil => rw [List.flatMap_nil, List.append_nil, split_of_notMem hpiece]
  | cons next pieces ih =>
    obtain ⟨hnext, hrest⟩ := List.forall_mem_cons.1 h
    rw [List.flatMap_cons, List.append_assoc, List.singleton_append, split_append_cons hpiece,
      ih hnext hrest]

/-- Splitting takes joining back. -/
theorem split_join {c : CodePoint} {pieces : List Text} (h : ∀ piece ∈ pieces, c ∉ piece)
    (hpieces : pieces ≠ []) : split c (join [c] pieces) = pieces := by
  cases pieces with
  | nil => exact absurd rfl hpieces
  | cons piece pieces =>
    obtain ⟨hpiece, hrest⟩ := List.forall_mem_cons.1 h
    rw [join_cons, split_append_flatMap hpiece hrest]

section

variable {α : Type}

/-- In a sequence of items, each after a separator, what follows an item is another item or a rest
that stops the sequence. -/
def After (Shown : α → Text → Prop) (separator : Text) (Stop : Text → Prop) (r : Text) : Prop :=
  Stop r ∨ ∃ x a s, Shown x a ∧ r = separator ++ (a ++ s)

/-- An item is determined by its text up to `Alike`, whatever may follow it, and no further item can
be taken for a rest that stops the sequence. -/
structure Delimited (Shown : α → Text → Prop) (Alike : α → α → Prop) (separator : Text)
    (Stop : Text → Prop) : Prop where
  item : ∀ {x x' : α} {a a' r r' : Text}, Shown x a → Shown x' a' →
    After Shown separator Stop r → After Shown separator Stop r' → a ++ r = a' ++ r' →
      Alike x x' ∧ r = r'
  next : ∀ {x : α} {a : Text} (s : Text), Shown x a → ¬ Stop (separator ++ (a ++ s))

variable {Shown : α → Text → Prop} {Alike : α → α → Prop} {separator : Text}
  {Stop : Text → Prop} {xs xs' : List α} {as as' : List Text} {r r' : Text}

theorem after_flatMap (h : List.Forall₂ Shown xs as) (hr : Stop r) :
    After Shown separator Stop (as.flatMap (separator ++ ·) ++ r) := by
  cases h with
  | nil => exact .inl hr
  | @cons x a xs as hx _ =>
    refine .inr ⟨x, a, as.flatMap (separator ++ ·) ++ r, hx, ?_⟩
    simp

/-- The items after a separator each, and the rest, are determined by the whole text. -/
theorem Delimited.flatMap (d : Delimited Shown Alike separator Stop)
    (h : List.Forall₂ Shown xs as)
    (h' : List.Forall₂ Shown xs' as') (hr : Stop r) (hr' : Stop r')
    (heq : as.flatMap (separator ++ ·) ++ r = as'.flatMap (separator ++ ·) ++ r') :
    List.Forall₂ Alike xs xs' ∧ r = r' := by
  induction h generalizing xs' as' with
  | nil =>
    cases h' with
    | nil => exact ⟨.nil, heq⟩
    | @cons x' a' xs' as' hx' _ =>
      simp only [List.flatMap_cons, List.append_assoc, List.flatMap_nil, List.nil_append] at heq
      exact absurd (heq ▸ hr) (d.next _ hx')
  | @cons x a xs as hx hxs ih =>
    cases h' with
    | nil =>
      simp only [List.flatMap_cons, List.append_assoc, List.flatMap_nil, List.nil_append] at heq
      exact absurd (heq ▸ hr') (d.next _ hx)
    | @cons x' a' xs' as' hx' hxs' =>
      simp only [List.flatMap_cons, List.append_assoc] at heq
      obtain ⟨hhead, htail⟩ := d.item hx hx' (after_flatMap hxs hr) (after_flatMap hxs' hr')
        (List.append_cancel_left heq)
      obtain ⟨hrest, hr⟩ := ih hxs' htail
      exact ⟨.cons hhead hrest, hr⟩

/-- The items of a joined text, and the rest, are determined by the whole text. -/
theorem Delimited.join (d : Delimited Shown Alike separator Stop)
    (start : ∀ {x : α} {a : Text} (s : Text), Shown x a → ¬ Stop (a ++ s))
    (h : List.Forall₂ Shown xs as)
    (h' : List.Forall₂ Shown xs' as') (hr : Stop r) (hr' : Stop r')
    (heq : Text.join separator as ++ r = Text.join separator as' ++ r') :
    List.Forall₂ Alike xs xs' ∧ r = r' := by
  cases h with
  | nil =>
    cases h' with
    | nil => exact ⟨.nil, heq⟩
    | cons hx' _ =>
      rw [join_cons, List.append_assoc] at heq
      have hstop : Stop (Text.join separator [] ++ r) := hr
      exact absurd (heq ▸ hstop) (start _ hx')
  | cons hx hxs =>
    rw [join_cons, List.append_assoc] at heq
    cases h' with
    | nil =>
      have hstop : Stop (Text.join separator [] ++ r') := hr'
      exact absurd (heq ▸ hstop) (start _ hx)
    | cons hx' hxs' =>
      rw [join_cons, List.append_assoc] at heq
      obtain ⟨hhead, htail⟩ := d.item hx hx' (after_flatMap hxs hr) (after_flatMap hxs' hr') heq
      obtain ⟨hrest, hr⟩ := d.flatMap hxs hxs' hr hr' htail
      exact ⟨.cons hhead hrest, hr⟩

end

end LootTables.Text
