import LootTables.Proofs.Table.Grammar

/-!
# Well-formed tables

Models have room for more than documents can say: pools without entries, bounds that no single can
hold, nodes of a wrong kind, and books that are enchanted at random under their old name. The tables
without any of this are *well-formed*, and they are exactly the ones that documents decode to
(`exists_toTable_iff`).

One half goes through the grammar level by level: what is related to a value is well-formed. For the
other half every table is written as a document, with no more fields than are needed (`toJson`), and
the grammar relates the document of a well-formed table to this table.
-/

namespace LootTables

/-! ### What is well-formed -/

/-- A finite double that stays finite when it is narrowed to a single. -/
def Number.IsBound : Number → Prop
  | .double (.finite x) => x.narrow?.isSome
  | _ => False

/-- The function is of a particular kind, and its bounds, if it has any, are such. -/
def LootFunction.IsWellFormed : LootFunction → Prop
  | .constantCount _ | .marker _ => True
  | .uniformCount min max => min.IsBound ∧ max.IsBound
  | .bare => False

/-- The rolls are rolls, and their bounds, if they have any, are such. -/
def Roll.IsWellFormed : Roll → Prop
  | .constant _ => True
  | .uniform min max => min.IsBound ∧ max.IsBound
  | .misplaced _ => False

/-- The entry is an entry with well-formed functions, and no book that is enchanted at random. -/
def Entry.IsWellFormed : Entry → Prop
  | .empty _ => True
  | .item name _ functions =>
    (∀ f ∈ functions, f.IsWellFormed) ∧
      ¬(name = "minecraft:book" ∧ LootFunction.marker .enchantRandomly ∈ functions)
  | .misplaced _ => False

/-- A pool has at least one entry. -/
structure LootPool.IsWellFormed (pool : LootPool) : Prop where
  rolls : pool.rolls.IsWellFormed
  nonempty : pool.entries ≠ []
  entries : ∀ e ∈ pool.entries, e.IsWellFormed

/-- All pools are well-formed. A table need not have any, and may have any name. -/
def LootTable.IsWellFormed (table : LootTable) : Prop := ∀ p ∈ table.pools, p.IsWellFormed

/-! ### What decodes is well-formed -/

theorem Json.IsBound.isBound {v : Json} {x : Binary binary64} (h : v.IsBound x) :
    (Number.double (.finite x)).IsBound := by
  cases h with
  | double fits => exact Option.isSome_of_eq_some fits
  | integer _ fits => exact Option.isSome_of_eq_some fits

theorem Json.IsRange.isBound {fields : Fields} {min max : Number} (h : IsRange fields min max) :
    min.IsBound ∧ max.IsBound := by
  obtain ⟨-, hmin, -, hmax⟩ := h
  exact ⟨hmin.isBound, hmax.isBound⟩

theorem Json.IsRoll.isWellFormed {v : Json} {rolls : Roll} (h : v.IsRoll rolls) :
    rolls.IsWellFormed := by
  cases h with
  | constant h => trivial
  | uniform h => exact h.isBound

theorem Json.IsFunction.isWellFormed {v : Json} {f : LootFunction} (h : v.IsFunction f) :
    f.IsWellFormed := by
  cases h with
  | marker m hasTag => trivial
  | count hasTag hasCount h =>
    cases h with
    | constant h => trivial
    | uniform hasType h => exact h.isBound

theorem Json.AreFunctions.isWellFormed {fields : Fields} {functions : List LootFunction}
    (h : AreFunctions fields functions) : ∀ f ∈ functions, f.IsWellFormed := by
  cases h with
  | absent h => exact List.forall_mem_nil _
  | present has h => exact forall_of_forall₂ h fun _ _ hf => hf.isWellFormed

/-- A book that is enchanted at random is given under another name. -/
theorem Json.IsGiven.not_enchantedBook {functions : List LootFunction} {name given : Text}
    (h : IsGiven functions name given) :
    ¬(given = "minecraft:book" ∧ LootFunction.marker .enchantRandomly ∈ functions) := by
  rintro ⟨hbook, henchanted⟩
  cases h with
  | enchantedBook h => exact absurd hbook (by decide)
  | book h => exact h henchanted
  | other h => exact h hbook

theorem Json.IsEntry.isWellFormed {v : Json} {entry : Entry} (h : v.IsEntry entry) :
    entry.IsWellFormed := by
  cases h with
  | empty hasType hasWeight h => trivial
  | item hasType other hasName hweight hfunctions hgiven =>
    exact ⟨hfunctions.isWellFormed, hgiven.not_enchantedBook⟩

theorem Json.IsPool.isWellFormed {v : Json} {pool : LootPool} (h : v.IsPool pool) :
    pool.IsWellFormed := by
  obtain ⟨hasRolls, hrolls, hasEntries, nonempty, hentries⟩ := h
  refine ⟨hrolls.isWellFormed, ?_, forall_of_forall₂ hentries fun _ _ he => he.isWellFormed⟩
  rintro rfl
  exact nonempty (List.forall₂_nil_right_iff.1 hentries)

theorem Json.IsDocument.isWellFormed {v : Json} {name : Text} {pools : List LootPool}
    (h : v.IsDocument pools) : (LootTable.mk name pools).IsWellFormed := by
  obtain ⟨hasPools, hpools⟩ := h
  exact forall_of_forall₂ hpools fun _ _ hp => hp.isWellFormed

/-! ### Tables as documents -/

/-- An integer in a document. -/
def Json.ofInt (n : Int) : Json := .number (.integer n)

/-- The fields of a range. -/
def rangeFields (min max : Number) : Fields := [("min", .number min), ("max", .number max)]

/-- A number of rolls as it stands in a document. What is no roll is not shown. -/
def Roll.toJson : Roll → Json
  | .constant n => .ofInt n
  | .uniform min max => .object (rangeFields min max)
  | .misplaced _ => .null

/-- A function as it stands in a document. A function of no particular kind is not shown. -/
def LootFunction.toJson : LootFunction → Json
  | .constantCount n => .object [("function", .string "minecraft:set_count"), ("count", .ofInt n)]
  | .uniformCount min max =>
    .object [("function", .string "minecraft:set_count"),
      ("count", .object (("type", .string "minecraft:uniform") :: rangeFields min max))]
  | .marker m => .object [("function", .string (tag m.name))]
  | .bare => .null

/-- An entry as it stands in a document. What is no entry is not shown. -/
def Entry.toJson : Entry → Json
  | .empty weight => .object [("type", .string "minecraft:empty"), ("weight", .ofInt weight)]
  | .item name weight functions =>
    .object [("type", .string "minecraft:item"), ("name", .string name), ("weight", .ofInt weight),
      ("functions", .array (functions.map LootFunction.toJson))]
  | .misplaced _ => .null

/-- A pool as it stands in a document. -/
def LootPool.toJson (pool : LootPool) : Json :=
  .object [("rolls", pool.rolls.toJson), ("entries", .array (pool.entries.map Entry.toJson))]

/-- The document of a table. The name of the table is not part of it. -/
def LootTable.toJson (table : LootTable) : Json :=
  .object [("pools", .array (table.pools.map LootPool.toJson))]

/-! ### Documents of well-formed tables -/

theorem Number.IsBound.isBound_json {n : Number} (h : n.IsBound) :
    ∃ x, n = .double (.finite x) ∧ (Json.number n).IsBound x := by
  match n, h with
  | .double (.finite x), h =>
    obtain ⟨s, hs⟩ := Option.isSome_iff_exists.1 h
    exact ⟨x, rfl, .double hs⟩

theorem isRange_of_isBound {fields : Fields} {min max : Number}
    (hasMin : fields.Has "min" (.number min)) (hasMax : fields.Has "max" (.number max))
    (hmin : min.IsBound) (hmax : max.IsBound) : Json.IsRange fields min max := by
  obtain ⟨x, rfl, hx⟩ := hmin.isBound_json
  obtain ⟨y, rfl, hy⟩ := hmax.isBound_json
  exact .intro hasMin hx hasMax hy

theorem Roll.isRoll_toJson {rolls : Roll} (h : rolls.IsWellFormed) : rolls.toJson.IsRoll rolls := by
  cases rolls with
  | constant n => exact .constant (.integer n)
  | uniform min max => exact .uniform (isRange_of_isBound rfl rfl h.1 h.2)
  | misplaced kind => exact h.elim

theorem LootFunction.isFunction_toJson {f : LootFunction} (h : f.IsWellFormed) :
    f.toJson.IsFunction f := by
  cases f with
  | constantCount n => exact .count rfl rfl (.constant (.integer n))
  | uniformCount min max =>
    exact .count rfl rfl (.uniform rfl (isRange_of_isBound rfl rfl h.1 h.2))
  | marker m => exact .marker m rfl
  | bare => exact h.elim

/-- An item that is given under its own name. -/
theorem Json.isGiven_self {functions : List LootFunction} {name : Text}
    (h : ¬(name = "minecraft:book" ∧ LootFunction.marker .enchantRandomly ∈ functions)) :
    IsGiven functions name name := by
  by_cases hbook : name = "minecraft:book"
  · subst hbook
    exact .book fun henchanted => h ⟨rfl, henchanted⟩
  · exact .other hbook

theorem Entry.isEntry_toJson {entry : Entry} (h : entry.IsWellFormed) :
    entry.toJson.IsEntry entry := by
  cases entry with
  | empty weight => exact .empty rfl rfl (.integer weight)
  | item name weight functions =>
    obtain ⟨hfunctions, hname⟩ := h
    have hitems : List.Forall₂ Json.IsFunction (functions.map LootFunction.toJson) functions :=
      forall₂_map_self fun f hf => LootFunction.isFunction_toJson (hfunctions f hf)
    exact .item rfl (by decide) rfl (.present rfl (.integer weight)) (.present rfl hitems)
      (Json.isGiven_self hname)
  | misplaced kind => exact h.elim

theorem LootPool.isPool_toJson {pool : LootPool} (h : pool.IsWellFormed) : pool.toJson.IsPool pool := by
  have hitems : List.Forall₂ Json.IsEntry (pool.entries.map Entry.toJson) pool.entries :=
    forall₂_map_self fun e he => Entry.isEntry_toJson (h.entries e he)
  exact .intro rfl (Roll.isRoll_toJson h.rolls) rfl (mt List.map_eq_nil_iff.1 h.nonempty) hitems

theorem LootTable.isDocument_toJson {table : LootTable} (h : table.IsWellFormed) :
    table.toJson.IsDocument table.pools :=
  .intro rfl (forall₂_map_self fun p hp => LootPool.isPool_toJson (h p hp))

/-- The document of a well-formed table decodes to it. -/
theorem LootTable.toTable_toJson {table : LootTable} (h : table.IsWellFormed) :
    table.toJson.toTable table.name = .ok table :=
  toTable_eq_ok_iff.2 ⟨rfl, LootTable.isDocument_toJson h⟩

/-! ### The tables of documents -/

/-- Documents decode to exactly the well-formed tables, each under the name that was asked for. -/
theorem exists_toTable_iff (table : LootTable) (name : Text) :
    (∃ v : Json, v.toTable name = .ok table) ↔ table.name = name ∧ table.IsWellFormed := by
  constructor
  · rintro ⟨v, hv⟩
    obtain ⟨hname, hpools⟩ := toTable_eq_ok_iff.1 hv
    exact ⟨hname, hpools.isWellFormed⟩
  · rintro ⟨rfl, h⟩
    exact ⟨table.toJson, LootTable.toTable_toJson h⟩

end LootTables
