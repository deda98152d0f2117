import LootTables.Files.Action

/-!
# Runs on a file tree

A run from a tree ends with a value or with a failure, and in both cases with a tree. `FileM.Ends`
says what holds then, and a lemma for each way of composing computations takes this apart. What
every single action keeps is kept by a list of them (`ends_perform`).
-/

namespace LootTables

variable {ε ε' α β : Type}

/-- From `t`, the computation ends with a value and a tree that `ok` holds of, or with a failure and
a tree that `error` holds of. -/
def FileM.Ends (x : FileM ε α) (t : FileTree) (ok : α → FileTree → Prop)
    (error : ε → FileTree → Prop) : Prop :=
  match x t with
  | .ok a t' => ok a t'
  | .error e t' => error e t'

namespace FileM

variable {x : FileM ε α} {t : FileTree} {ok : α → FileTree → Prop} {error : ε → FileTree → Prop}

theorem ends_iff : x.Ends t ok error ↔
    (∀ a t', x t = .ok a t' → ok a t') ∧ ∀ e t', x t = .error e t' → error e t' := by
  unfold Ends
  cases x t <;> simp

theorem exists_ok_of_run'_isSome (h : (x.run' t).isSome) : ∃ a t', x t = .ok a t' := by
  unfold EStateM.run' EStateM.run at h
  cases hx : x t with
  | ok a t' => exact ⟨a, t', rfl⟩
  | error e t' => simp [hx] at h

theorem exists_error_of_run'_isNone (h : (x.run' t).isNone) : ∃ e t', x t = .error e t' := by
  unfold EStateM.run' EStateM.run at h
  cases hx : x t with
  | ok a t' => simp [hx] at h
  | error e t' => exact ⟨e, t', rfl⟩

/-- The computation fails, and this holds of the failure and of the tree that is left. -/
def failsWith (x : FileM ε α) (t : FileTree) (p : ε → FileTree → Bool) : Bool :=
  match x t with
  | .ok _ _ => false
  | .error e t' => p e t'

theorem exists_error_of_failsWith {p : ε → FileTree → Bool} (h : x.failsWith t p) :
    ∃ e t', x t = .error e t' ∧ p e t' := by
  unfold failsWith at h
  cases hx : x t with
  | ok a t' => simp [hx] at h
  | error e t' =>
    rw [hx] at h
    exact ⟨e, t', rfl, h⟩

theorem Ends.mono {ok' : α → FileTree → Prop} {error' : ε → FileTree → Prop}
    (h : x.Ends t ok error) (hok : ∀ a t', ok a t' → ok' a t')
    (herror : ∀ e t', error e t' → error' e t') : x.Ends t ok' error' := by
  rw [ends_iff] at h ⊢
  exact ⟨fun a t' hx => hok a t' (h.1 a t' hx), fun e t' hx => herror e t' (h.2 e t' hx)⟩

theorem ends_trivial (x : FileM ε α) (t : FileTree) : x.Ends t (fun _ _ => True) fun _ _ => True := by
  rw [ends_iff]
  exact ⟨fun _ _ _ => trivial, fun _ _ _ => trivial⟩

theorem ends_pure {a : α} (h : ok a t) : (pure a : FileM ε α).Ends t ok error := h

theorem ends_throw {e : ε} (h : error e t) : (throw e : FileM ε α).Ends t ok error := h

theorem ends_get {f : FileTree → FileM ε α} (h : (f t).Ends t ok error) :
    (get >>= f : FileM ε α).Ends t ok error := h

theorem Ends.bind {f : α → FileM ε β} {ok' : β → FileTree → Prop} (h : x.Ends t ok error)
    (hf : ∀ a t', ok a t' → (f a).Ends t' ok' error) : (x >>= f : FileM ε β).Ends t ok' error := by
  unfold Ends at h ⊢
  change match EStateM.bind x f t with | .ok b t' => ok' b t' | .error e t' => error e t'
  unfold EStateM.bind
  cases hx : x t with
  | ok a t' =>
    rw [hx] at h
    exact hf a t' h
  | error e t' =>
    rw [hx] at h
    exact h

theorem Ends.bind_of_ok {f : α → FileM ε β} {ok' : β → FileTree → Prop} {a : α} {t' : FileTree}
    (h : x t = .ok a t') (hf : (f a).Ends t' ok' error) : (x >>= f : FileM ε β).Ends t ok' error := by
  have hx : x.Ends t (fun b t'' => b = a ∧ t'' = t') error := by
    unfold Ends
    rw [h]
    exact ⟨rfl, rfl⟩
  refine hx.bind fun b t'' hb => ?_
  rw [hb.1, hb.2]
  exact hf

theorem bind_of_error {f : α → FileM ε β} {e : ε} {t' : FileTree} (h : x t = .error e t') :
    (x >>= f : FileM ε β) t = .error e t' := by
  change EStateM.bind x f t = .error e t'
  unfold EStateM.bind
  rw [h]

/-- A handler starts from the tree that the failure leaves. -/
theorem Ends.tryCatch {handler : ε → FileM ε α} {mid : ε → FileTree → Prop} (h : x.Ends t ok mid)
    (hhandler : ∀ e t', mid e t' → (handler e).Ends t' ok error) :
    (MonadExcept.tryCatch x handler : FileM ε α).Ends t ok error := by
  unfold Ends at h ⊢
  change match EStateM.tryCatch x handler t with | .ok a t' => ok a t' | .error e t' => error e t'
  unfold EStateM.tryCatch
  cases hx : x t with
  | ok a t' =>
    rw [hx] at h
    exact h
  | error e t' =>
    rw [hx] at h
    exact hhandler e t' h

theorem Ends.adaptExcept {g : ε → ε'} {error : ε' → FileTree → Prop}
    (h : x.Ends t ok fun e t' => error (g e) t') :
    FileM.Ends (EStateM.adaptExcept g x : FileM ε' α) t ok error := by
  unfold Ends EStateM.adaptExcept at *
  cases hx : x t with
  | ok a t' =>
    rw [hx] at h
    exact h
  | error e t' =>
    rw [hx] at h
    exact h

end FileM

/-! ### Lists of actions -/

section

variable {t : FileTree} {ok : Unit → FileTree → Prop} {error : FileError → FileTree → Prop}

theorem ends_perform_nil (h : ok () t) : (perform []).Ends t ok error := h

theorem ends_perform_cons {a : FileAction} {actions : List FileAction}
    (hok : ∀ t', a.apply t = .ok t' → (perform actions).Ends t' ok error)
    (herror : ∀ e, a.apply t = .error e → error e t) :
    (perform (a :: actions)).Ends t ok error := by
  have hfirst : FileM.Ends a.perform t (fun _ t' => (perform actions).Ends t' ok error) error := by
    unfold FileM.Ends FileAction.perform
    cases ha : a.apply t with
    | ok t' => exact hok t' ha
    | error e => exact herror e ha
  exact hfirst.bind fun _ _ h => h

theorem ends_perform_of_ok {a : FileAction} {actions : List FileAction} {t' : FileTree}
    (h : a.apply t = .ok t') (hrest : (perform actions).Ends t' ok error) :
    (perform (a :: actions)).Ends t ok error := by
  refine ends_perform_cons (fun t'' h' => ?_) fun e he => ?_
  · cases h.symm.trans h'
    exact hrest
  · cases h.symm.trans he

theorem ends_perform_of_error {a : FileAction} {actions : List FileAction} {e : FileError}
    (h : a.apply t = .error e) (herror : error e t) : (perform (a :: actions)).Ends t ok error := by
  refine ends_perform_cons (fun t' ht' => ?_) fun e' he' => ?_
  · cases h.symm.trans ht'
  · cases h.symm.trans he'
    exact herror

/-- Of two lists of actions the second is performed after the whole first. -/
theorem perform_append (actions more : List FileAction) :
    perform (actions ++ more) = perform actions >>= fun _ => perform more := by
  induction actions with
  | nil => rfl
  | cons a actions ih =>
    change (a.perform >>= fun _ => perform (actions ++ more)) =
      (a.perform >>= fun _ => perform actions) >>= fun _ => perform more
    rw [ih, bind_assoc]

/-- What each action keeps is kept by all, as far as they are performed. -/
theorem ends_perform {P : FileTree → Prop} {actions : List FileAction}
    (hstep : ∀ a ∈ actions, ∀ t t', P t → a.apply t = .ok t' → P t') (h : P t) :
    (perform actions).Ends t (fun _ t' => P t') fun _ t' => P t' := by
  induction actions generalizing t with
  | nil => exact ends_perform_nil h
  | cons a actions ih =>
    rw [List.forall_mem_cons] at hstep
    exact ends_perform_cons (fun t' ht' => ih hstep.2 (hstep.1 t t' h ht')) fun _ _ => h

end

end LootTables
