import LootTables.Json.Reader
import LootTables.Proofs.Result
import LootTables.Proofs.Text.Numeral
import Mathlib.Data.List.TakeDrop

/-!
# The integers of a document

The reader refuses a numeral with too many digits wherever it stands, so all integers in a document
that it accepts keep within the limit (`keepsLimit_of_read`). The proof follows the reader: what
holds of each item that is read holds of all items of a container (`readItems_forall`), and the
fields of an object are those that were read, less the overwritten ones.
-/

namespace LootTables.Json

/-- The integer occurs somewhere in the value. -/
inductive HoldsInteger (n : Int) : Json → Prop
  | number : HoldsInteger n (.number (.integer n))
  | item {items : List Json} {v : Json} (mem : v ∈ items) (h : HoldsInteger n v) :
      HoldsInteger n (.array items)
  | field {fields : List (Text × Json)} {name : Text} {v : Json} (mem : (name, v) ∈ fields)
      (h : HoldsInteger n v) : HoldsInteger n (.object fields)

/-- No integer in the value has a numeral that is longer than the limit. -/
def KeepsLimit (v : Json) : Prop :=
  ∀ n, v.HoldsInteger n → (Text.ofNat n.natAbs).length ≤ numeralLimit

theorem keepsLimit_integer_iff {n : Int} :
    (Json.number (.integer n)).KeepsLimit ↔ n.natAbs < 10 ^ numeralLimit := by
  rw [← Text.length_ofNat_le_iff (by decide)]
  constructor
  · intro h
    exact h n .number
  · rintro h m ⟨⟩
    exact h

theorem keepsLimit_array_iff {items : List Json} :
    (Json.array items).KeepsLimit ↔ ∀ v ∈ items, v.KeepsLimit := by
  constructor
  · intro h v hv n hn
    exact h n (.item hv hn)
  · rintro h n (_ | ⟨hv, hn⟩)
    exact h _ hv n hn

theorem keepsLimit_object_iff {fields : List (Text × Json)} :
    (Json.object fields).KeepsLimit ↔ ∀ f ∈ fields, f.2.KeepsLimit := by
  constructor
  · intro h f hf n hn
    exact h n (.field hf hn)
  · rintro h n (_ | _ | ⟨hv, hn⟩)
    exact h _ hv n hn

theorem keepsLimit_of_forall_ne {v : Json} (h : ∀ n, ¬ v.HoldsInteger n) : v.KeepsLimit :=
  fun n hn => absurd hn (h n)

/-! ### Numbers -/

theorem natOfDigits_lt {s : Text} (h : ∀ c ∈ s, c.isDigit) : Text.natOfDigits s < 10 ^ s.length := by
  have hfold : ∀ (s : Text) (a : Nat), (∀ c ∈ s, c.isDigit) →
      s.foldl (fun n c => 10 * n + c.digitValue) a < (a + 1) * 10 ^ s.length := by
    intro s
    induction s with
    | nil => simp
    | cons c s ih =>
      intro a h
      have hc := of_decide_eq_true (h c List.mem_cons_self)
      have hdigit : c.digitValue ≤ 9 := by
        unfold CodePoint.digitValue
        omega
      calc (c :: s).foldl (fun n c => 10 * n + c.digitValue) a
          < (10 * a + c.digitValue + 1) * 10 ^ s.length :=
            ih _ fun d hd => h d (List.mem_cons_of_mem c hd)
        _ ≤ ((a + 1) * 10) * 10 ^ s.length := Nat.mul_le_mul_right _ (by omega)
        _ = (a + 1) * 10 ^ (c :: s).length := by
            rw [List.length_cons, Nat.pow_succ, Nat.mul_assoc, Nat.mul_comm 10]
  have hzero := hfold s 0 h
  rwa [Nat.zero_add, Nat.one_mul] at hzero

theorem natAbs_lt_of_readNumeral {negative : Bool} {digits : Text} {n : Int}
    (hdigits : ∀ c ∈ digits, c.isDigit) (h : readNumeral negative digits = .ok n) :
    n.natAbs < 10 ^ numeralLimit := by
  unfold readNumeral at h
  split at h
  · cases h
  · next hlength =>
    have hn : n.natAbs = Text.natOfDigits digits := by
      cases h
      cases negative <;> simp
    rw [hn]
    exact Nat.lt_of_lt_of_le (natOfDigits_lt hdigits)
      (Nat.pow_le_pow_right (by decide) (Nat.not_lt.1 hlength))

theorem isDigit_of_readWhole {s whole r : Text} (h : readWhole s = some (whole, r)) :
    ∀ c ∈ whole, c.isDigit := by
  unfold readWhole spanDigits at h
  split at h
  · cases h
  · split at h
    · cases h
      decide
    · split at h
      · rw [List.span_eq_takeWhile_dropWhile] at h
        cases h
        intro d hd
        exact List.all_eq_true.1 List.all_takeWhile d hd
      · cases h

theorem keepsLimit_of_readNumber {s r : Text} {n : Number} (h : readNumber s = .ok (n, r)) :
    (Json.number n).KeepsLimit := by
  unfold readNumber at h
  dsimp only at h
  split at h
  · cases h
  · next whole rest hwhole =>
    split at h
    · split at h
      · next m hm =>
        cases h
        rw [keepsLimit_integer_iff]
        exact natAbs_lt_of_readNumeral (isDigit_of_readWhole hwhole) hm
      · cases h
    · cases h
      exact keepsLimit_of_forall_ne (by rintro m ⟨⟩)

/-! ### Containers -/

/-- What holds of each item that is read holds of all items of a container. -/
theorem readSequence_forall {α : Type} {P : α → Prop} {item : Reader α} {closing : CodePoint}
    (hitem : ∀ s x r, item s = .ok (x, r) → P x) {fuel : Nat} {s r : Text} {xs : List α}
    (h : readSequence item closing fuel s = .ok (xs, r)) : ∀ x ∈ xs, P x := by
  induction fuel generalizing s xs with
  | zero => cases h
  | succ fuel ih =>
    unfold readSequence at h
    obtain ⟨⟨x, s'⟩, hx, h⟩ := bind_eq_ok_iff.1 h
    have hP := hitem s x s' hx
    dsimp only at h
    split at h
    · cases h
    · split at h
      · cases h
        exact List.forall_mem_singleton.2 hP
      · split at h
        · obtain ⟨⟨ys, s''⟩, hys, h⟩ := bind_eq_ok_iff.1 h
          cases h
          exact List.forall_mem_cons.2 ⟨hP, ih hys⟩
        · cases h

theorem readItems_forall {α : Type} {P : α → Prop} {item : Reader α} {closing : CodePoint}
    (hitem : ∀ s x r, item s = .ok (x, r) → P x) {s r : Text} {xs : List α}
    (h : readItems item closing s = .ok (xs, r)) : ∀ x ∈ xs, P x := by
  unfold readItems at h
  dsimp only at h
  split at h
  · exact readSequence_forall hitem h
  · split at h
    · cases h
      exact List.forall_mem_nil P
    · exact readSequence_forall hitem h

theorem readField_value {value : Reader Json} {P : Json → Prop}
    (hvalue : ∀ s v r, value s = .ok (v, r) → P v) {s r : Text} {f : Text × Json}
    (h : readField value s = .ok (f, r)) : P f.2 := by
  unfold readField at h
  split at h
  · cases h
  · split at h
    · obtain ⟨⟨name, s'⟩, -, h⟩ := bind_eq_ok_iff.1 h
      dsimp only at h
      split at h
      · cases h
      · split at h
        · obtain ⟨⟨v, s''⟩, hv, h⟩ := bind_eq_ok_iff.1 h
          cases h
          exact hvalue _ v s'' hv
        · cases h
    · cases h

theorem mem_put {fields : List (Text × Json)} {name : Text} {v : Json} {f : Text × Json}
    (h : f ∈ Assoc.put name v fields) : f = (name, v) ∨ f ∈ fields := by
  induction fields with
  | nil => exact .inl (List.mem_singleton.1 h)
  | cons g fields ih =>
    unfold Assoc.put at h
    split at h
    · rcases List.mem_cons.1 h with rfl | h
      · exact .inl rfl
      · exact .inr (List.mem_cons_of_mem g h)
    · rcases List.mem_cons.1 h with rfl | h
      · exact .inr List.mem_cons_self
      · exact (ih h).imp_right (List.mem_cons_of_mem g)

/-- Every field of an object comes from one of the members that it was built from. -/
theorem keepsLimit_ofMembers {members : List (Text × Json)} (h : ∀ m ∈ members, m.2.KeepsLimit) :
    (Json.ofMembers members).KeepsLimit := by
  -- The fields that are there already keep the limit while the members are put in.
  have hfold : ∀ (members fields : List (Text × Json)), (∀ m ∈ members, m.2.KeepsLimit) →
      (∀ f ∈ fields, f.2.KeepsLimit) →
      ∀ f ∈ members.foldl (fun fields m => Assoc.put m.1 m.2 fields) fields, f.2.KeepsLimit := by
    intro members
    induction members with
    | nil => exact fun fields _ hfields => hfields
    | cons m members ih =>
      intro fields hmembers hfields
      rw [List.forall_mem_cons] at hmembers
      refine ih _ hmembers.2 fun f hf => ?_
      rcases mem_put hf with rfl | hf
      · exact hmembers.1
      · exact hfields f hf
  exact keepsLimit_object_iff.2 (hfold members [] h (List.forall_mem_nil _))

/-! ### Documents -/

theorem keepsLimit_of_readWord? {s r : Text} {v : Json} (h : readWord? s = some (v, r)) :
    v.KeepsLimit := by
  obtain ⟨⟨word, w⟩, hmem, hw⟩ := List.exists_of_findSome?_eq_some h
  obtain ⟨r', -, he⟩ := Option.map_eq_some_iff.1 hw
  cases he
  refine keepsLimit_of_forall_ne fun n hn => ?_
  simp only [words, List.mem_cons, Prod.mk.injEq, List.not_mem_nil, or_false] at hmem
  rcases hmem with ⟨-, rfl⟩ | ⟨-, rfl⟩ | ⟨-, rfl⟩ | ⟨-, rfl⟩ | ⟨-, rfl⟩ | ⟨-, rfl⟩ <;> cases hn

theorem keepsLimit_of_readValue {depth : Nat} {s r : Text} {v : Json}
    (h : readValue depth s = .ok (v, r)) : v.KeepsLimit := by
  -- What is read inside of a container may open one container less.
  induction depth using Nat.strongRecOn generalizing s v r with
  | ind depth ih =>
    unfold readValue at h
    split at h
    · cases h
    · next c t =>
      split at h
      -- a string
      · obtain ⟨⟨text, t'⟩, -, h⟩ := bind_eq_ok_iff.1 h
        cases h
        exact keepsLimit_of_forall_ne (by rintro n ⟨⟩)
      · split at h
        -- an array
        · split at h
          · cases h
          · next depth =>
            obtain ⟨⟨items, t'⟩, hitems, h⟩ := bind_eq_ok_iff.1 h
            cases h
            rw [keepsLimit_array_iff]
            exact readItems_forall (fun s v r => ih depth depth.lt_succ_self)
              (Reader.within_eq_ok_iff.1 hitems)
        · split at h
          -- an object
          · split at h
            · cases h
            · next depth =>
              obtain ⟨⟨members, t'⟩, hmembers, h⟩ := bind_eq_ok_iff.1 h
              cases h
              refine keepsLimit_ofMembers
                (readItems_forall (fun s f r hf => ?_) (Reader.within_eq_ok_iff.1 hmembers))
              exact readField_value (fun s v r => ih depth depth.lt_succ_self) hf
          · split at h
            -- a word or a number
            · next hword =>
              cases h
              exact keepsLimit_of_readWord? hword
            · obtain ⟨⟨n, t'⟩, hn, h⟩ := bind_eq_ok_iff.1 h
              cases h
              exact keepsLimit_of_readNumber hn

/-- A document that is read holds no integer whose numeral is too long. -/
theorem keepsLimit_of_read {s : Text} {limit : Nat} {v : Json} (h : read s limit = .ok v) :
    v.KeepsLimit := by
  unfold read at h
  split at h
  · cases h
  · split at h
    · cases h
    · next hv =>
      split at h
      · cases h
        exact keepsLimit_of_readValue hv
      · cases h

end LootTables.Json
