/-!
# Tables of keys and values

A table is a list of pairs, and `List.lookup` finds the value of a key. `Assoc.put` overwrites a
present key where it stands and adds a new one at the end, so that a table keeps the order in
which its keys came; `Assoc.erase` takes a key out. Both say what a lookup gives afterwards
(`lookup_put`, `lookup_erase`), and neither makes a key occur twice.
-/

namespace LootTables

/-- Keys with their values, in the order of insertion. -/
abbrev Assoc (κ α : Type) := List (κ × α)

namespace Assoc

variable {κ α : Type} [DecidableEq κ]

/-- The table after `key` is set to `value`. -/
def put (key : κ) (value : α) : Assoc κ α → Assoc κ α
  | [] => [(key, value)]
  | entry :: rest => if entry.1 = key then (key, value) :: rest else entry :: put key value rest

/-- The table without `key`. -/
def erase (key : κ) (table : Assoc κ α) : Assoc κ α := table.filter fun entry => entry.1 ≠ key

/-- The keys of a table. -/
def keys (table : Assoc κ α) : List κ := table.map Prod.fst

theorem lookup_cons [BEq κ] [LawfulBEq κ] (entry : κ × α) (rest : Assoc κ α) (k : κ) :
    List.lookup k (entry :: rest) = if k = entry.1 then some entry.2 else rest.lookup k := by
  rw [List.lookup_cons]
  by_cases h : k = entry.1
  · rw [if_pos h, h, beq_self_eq_true]
  · rw [if_neg h, beq_eq_false_iff_ne.2 h]

theorem lookup_put [BEq κ] [LawfulBEq κ] (key : κ) (value : α) (table : Assoc κ α) (k : κ) :
    (put key value table).lookup k = if k = key then some value else table.lookup k := by
  induction table with
  | nil => rw [put, lookup_cons]
  | cons entry rest ih => grind [put, lookup_cons]

theorem lookup_erase [BEq κ] [LawfulBEq κ] (key : κ) (table : Assoc κ α) (k : κ) :
    (erase key table).lookup k = if k = key then none else table.lookup k := by
  induction table with
  | nil => simp [erase]
  | cons entry rest ih =>
    rw [erase, List.filter_cons, ← erase]
    grind [lookup_cons]

omit [DecidableEq κ] in
/-- When no key occurs twice, what is listed under a key is what is found under it. -/
theorem lookup_eq_some_iff_mem [BEq κ] [LawfulBEq κ] {table : Assoc κ α} (h : (keys table).Nodup)
    {k : κ} {value : α} : table.lookup k = some value ↔ (k, value) ∈ table := by
  rw [List.lookup_eq_some_iff]
  constructor
  · rintro ⟨before, after, rfl, -⟩
    simp
  · intro hmem
    obtain ⟨before, after, rfl⟩ := List.append_of_mem hmem
    refine ⟨before, after, rfl, fun entry hentry => ?_⟩
    -- A second entry with this key before it would make the key occur twice.
    have hkeys := List.nodup_append.1 (by simpa [keys] using h)
    have hne := hkeys.2.2 entry.1 (List.mem_map_of_mem hentry) k List.mem_cons_self
    rw [bne_iff_ne]
    exact Ne.symm hne

omit [DecidableEq κ] in
theorem lookup_eq_none_iff_not_mem [BEq κ] [LawfulBEq κ] {table : Assoc κ α} {k : κ} :
    table.lookup k = none ↔ k ∉ keys table := by
  rw [List.lookup_eq_none_iff, keys, List.mem_map, not_exists]
  simp only [bne_iff_ne, not_and]
  exact forall₂_congr fun entry _ => ne_comm

/-- The keys after an insertion: a new one comes last. -/
theorem keys_put (key : κ) (value : α) (table : Assoc κ α) :
    keys (put key value table) =
      if key ∈ keys table then keys table else keys table ++ [key] := by
  induction table with
  | nil => simp [put, keys]
  | cons entry rest ih => grind [put, keys]

theorem nodup_put {key : κ} {value : α} {table : Assoc κ α} (h : (keys table).Nodup) :
    (keys (put key value table)).Nodup := by
  rw [keys_put]
  split
  · exact h
  · next fresh => simp only [List.nodup_append, h, true_and]; simp; exact fun a ha e => fresh (e ▸ ha)

omit [DecidableEq κ] in
theorem nodup_filter {p : κ × α → Bool} {table : Assoc κ α} (h : (keys table).Nodup) :
    (keys (table.filter p)).Nodup :=
  h.sublist (List.filter_sublist.map _)

theorem nodup_erase {key : κ} {table : Assoc κ α} (h : (keys table).Nodup) :
    (keys (erase key table)).Nodup := nodup_filter h

end Assoc

end LootTables
