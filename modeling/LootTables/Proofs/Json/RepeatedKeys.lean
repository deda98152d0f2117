import LootTables.Json.Value
import Mathlib.Data.List.Induction

/-!
# Repeated keys

An object that is written with a key more than once keeps the last value of the key, in the place where
the key was written first (`Assoc.lastValues`). `Json.lastKept` does this to all objects in a value.
It is the same as putting the members into an empty object one by one (`ofMembers_eq_lastValues`), its
results have distinct keys (`hasDistinctKeys_lastKept`), and it leaves a value with distinct keys as it
is (`HasDistinctKeys.lastKept_eq`).
-/

namespace LootTables

/-! ## Tables -/

namespace Assoc

variable {κ α : Type} [DecidableEq κ]

/-- Each key where it comes first, with the value that it has last. -/
def lastValues : Assoc κ α → Assoc κ α
  | [] => []
  | (key, value) :: rest =>
    let later := lastValues rest
    (key, (later.lookup key).getD value) :: erase key later

theorem erase_cons (key : κ) (entry : κ × α) (rest : Assoc κ α) :
    erase key (entry :: rest) = if entry.1 = key then erase key rest else entry :: erase key rest := by
  unfold erase
  rw [List.filter_cons]
  by_cases h : entry.1 = key <;> simp [h]

theorem erase_put_self (key : κ) (value : α) (table : Assoc κ α) :
    erase key (put key value table) = erase key table := by
  induction table with
  | nil => rw [put, erase_cons, if_pos rfl]
  | cons entry rest ih =>
    unfold put
    split
    · next h => rw [erase_cons, erase_cons, if_pos rfl, if_pos h]
    · next h => rw [erase_cons, erase_cons, if_neg h, if_neg h, ih]

theorem erase_put_of_ne {key other : κ} (h : other ≠ key) (value : α) (table : Assoc κ α) :
    erase other (put key value table) = put key value (erase other table) := by
  induction table with
  | nil => rw [put, erase_cons, if_neg (Ne.symm h)]; rfl
  | cons entry rest ih =>
    rw [put, erase_cons]
    by_cases hkey : entry.1 = key
    · have hother : entry.1 ≠ other := fun ho => h (ho.symm.trans hkey)
      rw [if_pos hkey, if_neg hother, erase_cons, if_neg (Ne.symm h), put, if_pos hkey]
    · rw [if_neg hkey, erase_cons, ih]
      by_cases hother : entry.1 = other
      · rw [if_pos hother, if_pos hother]
      · rw [if_neg hother, if_neg hother, put, if_neg hkey]

/-- A further entry overwrites the value of its key or comes last. -/
theorem lastValues_append (entries : Assoc κ α) (key : κ) (value : α) :
    lastValues (entries ++ [(key, value)]) = put key value (lastValues entries) := by
  induction entries with
  | nil => rfl
  | cons entry entries ih =>
    rw [List.cons_append, lastValues, lastValues, ih]
    by_cases h : entry.1 = key
    · rw [h, lookup_put, if_pos rfl, erase_put_self, put, if_pos rfl]
      rfl
    · rw [lookup_put, if_neg h, erase_put_of_ne h, put, if_neg h]

/-- Putting the entries in one after the other keeps the last value of each key. -/
theorem foldl_put_eq_lastValues (entries : Assoc κ α) :
    entries.foldl (fun table entry => put entry.1 entry.2 table) [] = lastValues entries := by
  induction entries using List.reverseRecOn with
  | nil => rfl
  | append_singleton entries entry ih => rw [List.foldl_append, ih, lastValues_append]; rfl

/-- When no key occurs twice, nothing is overwritten. -/
theorem lastValues_eq_self {entries : Assoc κ α} (h : (keys entries).Nodup) :
    lastValues entries = entries := by
  induction entries with
  | nil => rfl
  | cons entry rest ih =>
    obtain ⟨hfresh, hrest⟩ := List.nodup_cons.1 h
    have hkeys : ∀ e ∈ rest, e.1 ≠ entry.1 := fun e he heq => hfresh (heq ▸ List.mem_map_of_mem he)
    have hlookup : List.lookup entry.1 rest = none := lookup_eq_none_iff_not_mem.2 hfresh
    have herase : erase entry.1 rest = rest :=
      List.filter_eq_self.2 fun e he => decide_eq_true (hkeys e he)
    rw [lastValues, ih hrest, hlookup, herase]
    rfl

theorem nodup_lastValues (entries : Assoc κ α) : (keys (lastValues entries)).Nodup := by
  induction entries with
  | nil => exact List.nodup_nil
  | cons entry rest ih =>
    refine List.nodup_cons.2 ⟨fun h => ?_, nodup_erase ih⟩
    obtain ⟨e, he, heq⟩ := List.mem_map.1 h
    exact of_decide_eq_true (List.mem_filter.1 he).2 heq

/-- What is left is among what was written. -/
theorem mem_of_mem_lastValues {entries : Assoc κ α} {entry : κ × α}
    (h : entry ∈ lastValues entries) : entry ∈ entries := by
  induction entries generalizing entry with
  | nil => exact h
  | cons first rest ih =>
    rcases List.mem_cons.1 h with rfl | h
    · cases hlookup : List.lookup first.1 (lastValues rest) with
      | none => exact List.mem_cons_self
      | some value =>
        obtain ⟨before, after, hrest, -⟩ := List.lookup_eq_some_iff.1 hlookup
        have hlater : (first.1, value) ∈ lastValues rest := hrest ▸ by simp
        exact List.mem_cons_of_mem first (ih hlater)
    · exact List.mem_cons_of_mem first (ih (List.mem_filter.1 h).1)

/-- Tables with the same keys in the same places, under which related values stand. -/
inductive Related (R : κ → α → α → Prop) : Assoc κ α → Assoc κ α → Prop
  | nil : Related R [] []
  | cons {key : κ} {a b : α} {entries entries' : Assoc κ α} (h : R key a b)
      (rest : Related R entries entries') : Related R ((key, a) :: entries) ((key, b) :: entries')

namespace Related

variable {R : κ → α → α → Prop} {entries entries' : Assoc κ α}

omit [DecidableEq κ] in
theorem refl (hR : ∀ key a, R key a a) : (entries : Assoc κ α) → Related R entries entries
  | [] => .nil
  | (key, a) :: entries => .cons (hR key a) (refl hR entries)

/-- Under each key either nothing is found in both, or related values. -/
theorem lookup [BEq κ] [LawfulBEq κ] (h : Related R entries entries') (k : κ) :
    Option.Rel (R k) (entries.lookup k) (entries'.lookup k) := by
  induction h with
  | nil => exact .none
  | @cons key a b entries entries' h _ ih =>
    rw [lookup_cons, lookup_cons]
    by_cases hk : k = key
    · rw [if_pos hk, if_pos hk, hk]
      exact .some h
    · rw [if_neg hk, if_neg hk]
      exact ih

theorem erase (h : Related R entries entries') (key : κ) :
    Related R (erase key entries) (erase key entries') := by
  induction h with
  | nil => exact .nil
  | cons h _ ih =>
    rw [erase_cons, erase_cons]
    split
    · exact ih
    · exact .cons h ih

theorem lastValues (h : Related R entries entries') :
    Related R (lastValues entries) (lastValues entries') := by
  induction h with
  | nil => exact .nil
  | @cons key a b entries entries' h _ ih =>
    refine .cons ?_ (ih.erase key)
    have hlater := ih.lookup key
    generalize (Assoc.lastValues entries).lookup key = found at hlater
    generalize (Assoc.lastValues entries').lookup key = found' at hlater
    cases hlater with
    | some hlater => exact hlater
    | none => exact h

end Related

end Assoc

/-! ## Values -/

namespace Json

mutual

/-- The value with the last value of each repeated key, where the key comes first. -/
def lastKept : Json → Json
  | .array items => .array (lastKeptItems items)
  | .object fields => .object (Assoc.lastValues (lastKeptFields fields))
  | v => v

def lastKeptItems : List Json → List Json
  | [] => []
  | v :: items => lastKept v :: lastKeptItems items

def lastKeptFields : List (Text × Json) → List (Text × Json)
  | [] => []
  | (name, v) :: fields => (name, lastKept v) :: lastKeptFields fields

end

theorem lastKeptItems_eq_map (items : List Json) : lastKeptItems items = items.map lastKept := by
  induction items with
  | nil => rfl
  | cons v items ih => rw [lastKeptItems, ih]; rfl

theorem lastKeptFields_eq_map (fields : List (Text × Json)) :
    lastKeptFields fields = fields.map fun f => (f.1, f.2.lastKept) := by
  induction fields with
  | nil => rfl
  | cons f fields ih => rw [lastKeptFields, ih]; rfl

/-- No object in the value has a key more than once. -/
inductive HasDistinctKeys : Json → Prop
  | null : HasDistinctKeys .null
  | bool (b : Bool) : HasDistinctKeys (.bool b)
  | number (n : Number) : HasDistinctKeys (.number n)
  | string (s : Text) : HasDistinctKeys (.string s)
  | array {items : List Json} (h : ∀ v ∈ items, HasDistinctKeys v) : HasDistinctKeys (.array items)
  | object {fields : List (Text × Json)} (nodup : (Assoc.keys fields).Nodup)
      (h : ∀ f ∈ fields, HasDistinctKeys f.2) : HasDistinctKeys (.object fields)

/-- Where no key is repeated, there is nothing to be left out. -/
theorem HasDistinctKeys.lastKept_eq {v : Json} (h : v.HasDistinctKeys) : v.lastKept = v := by
  induction h with
  | null | bool | number | string => rfl
  | array _ ih => rw [lastKept, lastKeptItems_eq_map, List.map_congr_left ih, List.map_id']
  | @object fields nodup _ ih =>
    have hfields : (fields.map fun f => (f.1, f.2.lastKept)) = fields := by
      rw [List.map_congr_left fun f hf => congrArg (Prod.mk f.1) (ih f hf), List.map_id']
    rw [lastKept, lastKeptFields_eq_map, hfields, Assoc.lastValues_eq_self nodup]

/-- An object has the last values of the members that it is built from. -/
theorem ofMembers_eq_lastValues (members : List (Text × Json)) :
    ofMembers members = .object (Assoc.lastValues members) :=
  congrArg Json.object (Assoc.foldl_put_eq_lastValues members)

mutual

/-- No key is left more than once. -/
theorem hasDistinctKeys_lastKept : (v : Json) → v.lastKept.HasDistinctKeys
  | .null => .null
  | .bool b => .bool b
  | .number n => .number n
  | .string s => .string s
  | .array items => .array (hasDistinctKeys_items items)
  | .object fields =>
    .object (Assoc.nodup_lastValues _) fun f hf =>
      hasDistinctKeys_fields fields f (Assoc.mem_of_mem_lastValues hf)

theorem hasDistinctKeys_items : (items : List Json) → ∀ v ∈ lastKeptItems items, v.HasDistinctKeys
  | [] => List.forall_mem_nil _
  | v :: items =>
    List.forall_mem_cons.2 ⟨hasDistinctKeys_lastKept v, hasDistinctKeys_items items⟩

theorem hasDistinctKeys_fields :
    (fields : List (Text × Json)) → ∀ f ∈ lastKeptFields fields, f.2.HasDistinctKeys
  | [] => List.forall_mem_nil _
  | (_, v) :: fields =>
    List.forall_mem_cons.2 ⟨hasDistinctKeys_lastKept v, hasDistinctKeys_fields fields⟩

end

end Json

end LootTables
