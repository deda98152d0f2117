import Mathlib.Data.List.Forall2

/-!
# Results

A computation that may fail gives a value or an error. These lemmas take a computation apart at its
result: when a sequence of two gives a value, and when a whole list of computations does.
-/

namespace LootTables

variable {ε ε' α β γ : Type}

theorem ok_bind {a : α} {g : α → Except ε β} : (.ok a : Except ε α) >>= g = g a := rfl

theorem bind_eq_ok_iff {x : Except ε α} {g : α → Except ε β} {b : β} :
    x >>= g = .ok b ↔ ∃ a, x = .ok a ∧ g a = .ok b := by
  cases x with
  | error e => simp [bind, Except.bind]
  | ok a => simp [bind, Except.bind]

theorem bind_eq_error_iff {x : Except ε α} {g : α → Except ε β} {e : ε} :
    x >>= g = .error e ↔ x = .error e ∨ ∃ a, x = .ok a ∧ g a = .error e := by
  cases x with
  | error e => simp [bind, Except.bind]
  | ok a => simp [bind, Except.bind]

/-- What is done with a value counts only if there is one. -/
theorem bind_congr_of_ok {x : Except ε α} {g g' : α → Except ε β} (h : ∀ a, x = .ok a → g a = g' a) :
    x >>= g = x >>= g' := by
  cases x with
  | error e => rfl
  | ok a => exact h a rfl

theorem mapError_eq_error_iff {x : Except ε α} {g : ε → ε'} {e : ε'} :
    x.mapError g = .error e ↔ ∃ e', x = .error e' ∧ g e' = e := by
  cases x with
  | error e => simp [Except.mapError]
  | ok a => simp [Except.mapError]

theorem exists_eq_ok_of_isSome {x : Except ε α} (h : x.toOption.isSome) : ∃ a, x = .ok a := by
  cases x with
  | error e => cases h
  | ok a => exact ⟨a, rfl⟩

theorem exists_eq_ok_of_any {x : Except ε α} {p : α → Bool} (h : x.toOption.any p) :
    ∃ a, x = .ok a ∧ p a := by
  cases x with
  | error e => cases h
  | ok a => exact ⟨a, rfl, h⟩

theorem pure_eq_ok_iff {a b : α} : (pure a : Except ε α) = .ok b ↔ a = b := by
  simp [pure, Except.pure]

theorem mapError_eq_ok_iff {x : Except ε α} {g : ε → ε'} {a : α} :
    x.mapError g = .ok a ↔ x = .ok a := by
  cases x with
  | error e => simp [Except.mapError]
  | ok a => simp [Except.mapError]

/-- A list of computations gives a list of values exactly if each gives its own. -/
theorem mapM_eq_ok_iff {g : α → Except ε β} {xs : List α} {ys : List β} :
    xs.mapM g = .ok ys ↔ List.Forall₂ (fun x y => g x = .ok y) xs ys := by
  induction xs generalizing ys with
  | nil =>
    rw [List.mapM_nil, pure_eq_ok_iff, List.forall₂_nil_left_iff]
    exact eq_comm
  | cons x xs ih =>
    rw [List.mapM_cons, bind_eq_ok_iff, List.forall₂_cons_left_iff]
    constructor
    · rintro ⟨y, hy, hrest⟩
      obtain ⟨zs, hzs, hcons⟩ := bind_eq_ok_iff.1 hrest
      exact ⟨y, zs, hy, ih.1 hzs, (pure_eq_ok_iff.1 hcons).symm⟩
    · rintro ⟨y, zs, hy, hzs, rfl⟩
      exact ⟨y, hy, bind_eq_ok_iff.2 ⟨zs, ih.2 hzs, rfl⟩⟩

/-- A list of computations of which each gives a value gives these values. -/
theorem mapM_eq_ok_map {g : α → Except ε β} {f : α → β} {xs : List α} (h : ∀ x ∈ xs, g x = .ok (f x)) :
    xs.mapM g = .ok (xs.map f) :=
  mapM_eq_ok_iff.2 (List.forall₂_map_right_iff.2 (List.forall₂_same.2 h))

/-- A list of computations gives values if each of its arguments is one that gives a value, for
instance because it comes from something of which this is known. -/
theorem exists_mapM_eq_ok {R : γ → α → Prop} {g : α → Except ε β} {vs : List γ} {xs : List α}
    (h : List.Forall₂ R vs xs) (hg : ∀ v x, R v x → ∃ y, g x = .ok y) :
    ∃ ys, xs.mapM g = .ok ys := by
  induction h with
  | nil => exact ⟨[], rfl⟩
  | @cons v x vs xs hx hxs ih =>
    obtain ⟨y, hy⟩ := hg v x hx
    obtain ⟨ys, hys⟩ := ih
    rw [List.mapM_cons]
    exact ⟨y :: ys, bind_eq_ok_iff.2 ⟨y, hy, bind_eq_ok_iff.2 ⟨ys, hys, rfl⟩⟩⟩

theorem exists_mapM_eq_ok_iff {g : α → Except ε β} {xs : List α} :
    (∃ ys, xs.mapM g = .ok ys) ↔ ∀ x ∈ xs, ∃ y, g x = .ok y := by
  induction xs with
  | nil => simp [pure, Except.pure]
  | cons x xs ih =>
    rw [List.forall_mem_cons, ← ih, List.mapM_cons]
    constructor
    · rintro ⟨ys, hys⟩
      obtain ⟨y, hy, hrest⟩ := bind_eq_ok_iff.1 hys
      obtain ⟨zs, hzs, -⟩ := bind_eq_ok_iff.1 hrest
      exact ⟨⟨y, hy⟩, zs, hzs⟩
    · rintro ⟨⟨y, hy⟩, zs, hzs⟩
      exact ⟨y :: zs, bind_eq_ok_iff.2 ⟨y, hy, bind_eq_ok_iff.2 ⟨zs, hzs, rfl⟩⟩⟩

/-- A list of computations fails exactly if one of them does and all before it give values, and then
its failure is that of the whole list. -/
theorem mapM_eq_error_iff {g : α → Except ε β} {xs : List α} {e : ε} :
    xs.mapM g = .error e ↔ ∃ before x after, xs = before ++ x :: after ∧
      (∀ y ∈ before, ∃ z, g y = .ok z) ∧ g x = .error e := by
  induction xs with
  | nil => simp [pure, Except.pure]
  | cons x xs ih =>
    rw [List.mapM_cons, bind_eq_error_iff]
    constructor
    · rintro (hx | ⟨y, hy, hrest⟩)
      · exact ⟨[], x, xs, rfl, List.forall_mem_nil _, hx⟩
      · rcases bind_eq_error_iff.1 hrest with hxs | ⟨ys, -, hpure⟩
        · obtain ⟨before, x', after, rfl, hbefore, hx'⟩ := ih.1 hxs
          exact ⟨x :: before, x', after, rfl, List.forall_mem_cons.2 ⟨⟨y, hy⟩, hbefore⟩, hx'⟩
        · cases hpure
    · rintro ⟨before, x', after, hxs, hbefore, hx'⟩
      cases before with
      | nil =>
        obtain ⟨rfl, rfl⟩ := List.cons.inj hxs
        exact .inl hx'
      | cons y before =>
        obtain ⟨rfl, rfl⟩ := List.cons.inj hxs
        obtain ⟨⟨z, hz⟩, hbefore⟩ := List.forall_mem_cons.1 hbefore
        have hrest := ih.2 ⟨before, x', after, rfl, hbefore, hx'⟩
        exact .inr ⟨z, hz, bind_eq_error_iff.2 (.inl hrest)⟩

theorem exists_mapM_eq_error {g : α → Except ε β} {xs : List α} {x : α} {e : ε} (hx : x ∈ xs)
    (h : g x = .error e) : ∃ e', xs.mapM g = .error e' := by
  cases hmapM : xs.mapM g with
  | error e' => exact ⟨e', rfl⟩
  | ok ys =>
    obtain ⟨y, hy⟩ := exists_mapM_eq_ok_iff.1 ⟨ys, hmapM⟩ x hx
    cases h.symm.trans hy

/-- The failure of a list is the failure of one of its computations. -/
theorem exists_eq_error_of_mapM {g : α → Except ε β} {xs : List α} {e : ε} (h : xs.mapM g = .error e) :
    ∃ x ∈ xs, g x = .error e := by
  obtain ⟨before, x, after, rfl, -, hx⟩ := mapM_eq_error_iff.1 h
  exact ⟨x, by simp, hx⟩

/-- Two relations between lists, item by item, compose to one. -/
theorem forall₂_comp {R : α → β → Prop} {S : β → γ → Prop} {xs : List α} {ys : List β} {zs : List γ}
    (h : List.Forall₂ R xs ys) (h' : List.Forall₂ S ys zs) :
    List.Forall₂ (fun x z => ∃ y, R x y ∧ S y z) xs zs := by
  induction h generalizing zs with
  | nil =>
    cases h'
    exact .nil
  | @cons x y xs ys hxy _ ih =>
    cases h' with
    | cons hyz hrest => exact .cons ⟨y, hxy, hyz⟩ (ih hrest)

/-- What each pair of related items shows of its second item holds of all items of the second list. -/
theorem forall_of_forall₂ {R : α → β → Prop} {Q : β → Prop} {xs : List α} {ys : List β}
    (h : List.Forall₂ R xs ys) (hQ : ∀ x y, R x y → Q y) : ∀ y ∈ ys, Q y := by
  induction h with
  | nil => exact List.forall_mem_nil _
  | cons hxy _ ih => exact List.forall_mem_cons.2 ⟨hQ _ _ hxy, ih⟩

/-- The images of items are related to the items when each one is. -/
theorem forall₂_map_self {R : α → β → Prop} {g : β → α} {ys : List β} (h : ∀ y ∈ ys, R (g y) y) :
    List.Forall₂ R (ys.map g) ys :=
  List.forall₂_map_left_iff.2 (List.forall₂_same.2 h)

/-- Lists whose items give the same one by one give the same. -/
theorem mapM_congr_of_forall₂ {g : α → Except ε γ} {g' : β → Except ε γ} {xs : List α} {xs' : List β}
    (h : List.Forall₂ (fun x x' => g x = g' x') xs xs') : xs.mapM g = xs'.mapM g' := by
  induction h with
  | nil => rfl
  | cons hx _ ih => rw [List.mapM_cons, List.mapM_cons, hx, ih]

end LootTables
