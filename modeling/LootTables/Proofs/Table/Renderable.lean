import LootTables.Generator
import LootTables.Proofs.Json.Integers
import LootTables.Proofs.Number.Literal
import LootTables.Proofs.Table.Grammar

/-!
# What decodes can be rendered

A table that was decoded from a document never fails to render (`render_of_toTable`). The decoder
and the renderer check different things: the one looks at the values of a document, the other at
the numerals and literals that it is about to write. They meet in the grammar: each level of it
admits only values whose integers have numerals and whose bounds have literals.

An integer is either written out in the document, and then its numeral is not too long there either,
or a double, and then it lies below `2 ^ 1024`, which has far fewer digits.
-/

namespace LootTables

/-! ### Integers and bounds -/

theorem Binary.natAbs_lt_of_value {x : Binary binary64} {n : Int} (h : x.value = n) :
    n.natAbs < 10 ^ numeralLimit := by
  have hmagnitude : (n.natAbs : ℚ) = x.magnitude := by
    rw [Nat.cast_natAbs, Int.cast_abs, ← h, Binary.abs_value]
  have hlt : (n.natAbs : ℚ) < 10 ^ (numeralLimit : ℤ) := by
    calc (n.natAbs : ℚ) = x.magnitude := hmagnitude
      _ < 2 ^ (1024 : ℤ) := x.magnitude_lt
      _ ≤ 10 ^ (1024 : ℤ) := zpow_le_zpow_left₀ (by decide) (by norm_num) (by norm_num)
      _ ≤ 10 ^ (numeralLimit : ℤ) := zpow_le_zpow_right₀ (by norm_num) (by decide)
  exact_mod_cast hlt

theorem renderInteger_of_isInteger {v : Json} {n : Int} (hv : v.KeepsLimit) (h : v.IsInteger n) :
    ∃ s, renderInteger n = .ok s := by
  have hn : n.natAbs < 10 ^ numeralLimit := by
    cases h with
    | integer => exact Json.keepsLimit_integer_iff.1 hv
    | double hvalue => exact Binary.natAbs_lt_of_value hvalue
  exact ⟨_, mapError_eq_ok_iff.2 (writeNumeral_eq_ok_iff.2 ⟨hn, rfl⟩)⟩

theorem literal_of_isBound {v : Json} {x : Binary binary64} (h : v.IsBound x) :
    ∃ s, (Number.double (.finite x)).literal = .ok s := by
  cases h with
  | double fits => exact ⟨_, Number.literal_eq (toSingle_eq_ok_iff.2 ⟨x, rfl, fits⟩)⟩
  | integer _ fits => exact ⟨_, Number.literal_eq (toSingle_eq_ok_iff.2 ⟨x, rfl, fits⟩)⟩

theorem renderBounds_of_isRange {fields : Fields} {min max : Number}
    (h : Json.IsRange fields min max) : ∃ s, renderBounds min max = .ok s := by
  obtain ⟨-, hmin, -, hmax⟩ := h
  obtain ⟨low, hlow⟩ := literal_of_isBound hmin
  obtain ⟨high, hhigh⟩ := literal_of_isBound hmax
  exact ⟨_, bind_eq_ok_iff.2 ⟨low, mapError_eq_ok_iff.2 hlow,
    bind_eq_ok_iff.2 ⟨high, mapError_eq_ok_iff.2 hhigh, rfl⟩⟩⟩

/-! ### The levels of a document -/

/-- The limit that an object keeps, its fields keep as well. -/
theorem Fields.Has.keepsLimit {fields : Fields} {name : Text} {v : Json} (has : fields.Has name v)
    (h : (Json.object fields).KeepsLimit) : v.KeepsLimit := by
  obtain ⟨before, after, hfields, -⟩ := List.lookup_eq_some_iff.1 has
  refine Json.keepsLimit_object_iff.1 h (name, v) ?_
  rw [hfields]
  exact List.mem_append_right before List.mem_cons_self

/-- When the items of an array keep the limit and each one that does is rendered, all are. -/
theorem mapM_of_forall₂ {α ε : Type} {P : Json → α → Prop} {render : α → Except ε Text}
    {items : List Json} {models : List α}
    (hrender : ∀ {v a}, v.KeepsLimit → P v a → ∃ s, render a = .ok s)
    (hlimit : (Json.array items).KeepsLimit) (h : List.Forall₂ P items models) :
    ∃ texts, models.mapM render = .ok texts := by
  have hboth := (List.forall₂_and_left items models).2 ⟨Json.keepsLimit_array_iff.1 hlimit, h⟩
  exact exists_mapM_eq_ok hboth fun v a hva => hrender hva.1 hva.2

theorem render_of_isRoll {v : Json} {rolls : Roll} (hv : v.KeepsLimit) (h : v.IsRoll rolls) :
    ∃ s, rolls.render = .ok s := by
  cases h with
  | constant h =>
    obtain ⟨s, hs⟩ := renderInteger_of_isInteger hv h
    exact ⟨_, bind_eq_ok_iff.2 ⟨s, hs, rfl⟩⟩
  | uniform h =>
    obtain ⟨s, hs⟩ := renderBounds_of_isRange h
    exact ⟨_, bind_eq_ok_iff.2 ⟨s, hs, rfl⟩⟩

theorem render_of_isFunction {v : Json} {f : LootFunction} (hv : v.KeepsLimit)
    (h : v.IsFunction f) : ∃ s, f.render = .ok s := by
  cases h with
  | marker m => exact ⟨_, rfl⟩
  | count _ hasCount h =>
    cases h with
    | constant h =>
      obtain ⟨s, hs⟩ := renderInteger_of_isInteger (hasCount.keepsLimit hv) h
      exact ⟨_, bind_eq_ok_iff.2 ⟨s, hs, rfl⟩⟩
    | uniform _ h =>
      obtain ⟨s, hs⟩ := renderBounds_of_isRange h
      exact ⟨_, bind_eq_ok_iff.2 ⟨s, hs, rfl⟩⟩

theorem renderWeight_of_isWeight {fields : Fields} {weight : Int}
    (hv : (Json.object fields).KeepsLimit) (h : Json.IsWeight fields weight) :
    ∃ s, renderWeight weight = .ok s := by
  unfold renderWeight
  split
  · exact ⟨[], rfl⟩
  · next hweight =>
    cases h with
    | absent => exact absurd rfl hweight
    | present has h =>
      obtain ⟨s, hs⟩ := renderInteger_of_isInteger (has.keepsLimit hv) h
      exact ⟨_, bind_eq_ok_iff.2 ⟨s, hs, rfl⟩⟩

theorem render_of_isEntry (itemNamespace : Text) {v : Json} {entry : Entry} (hv : v.KeepsLimit)
    (h : v.IsEntry entry) : ∃ s, entry.render itemNamespace = .ok s := by
  cases h with
  | empty _ hasWeight h =>
    obtain ⟨s, hs⟩ := renderInteger_of_isInteger (hasWeight.keepsLimit hv) h
    exact ⟨_, bind_eq_ok_iff.2 ⟨s, hs, rfl⟩⟩
  | @item fields _ _ _ _ functions _ _ _ hweight hfunctions _ =>
    obtain ⟨weight, hweight⟩ := renderWeight_of_isWeight hv hweight
    have hcalls : ∃ calls, functions.mapM LootFunction.render = .ok calls := by
      cases hfunctions with
      | absent => exact ⟨[], rfl⟩
      | present has h =>
        exact mapM_of_forall₂ render_of_isFunction (has.keepsLimit hv) h
    obtain ⟨calls, hcalls⟩ := hcalls
    exact ⟨_, bind_eq_ok_iff.2 ⟨weight, hweight, bind_eq_ok_iff.2 ⟨calls, hcalls, rfl⟩⟩⟩

theorem render_of_isPool (itemNamespace : Text) {v : Json} {pool : LootPool} (hv : v.KeepsLimit)
    (h : v.IsPool pool) : ∃ s, pool.render itemNamespace = .ok s := by
  obtain ⟨hasRolls, hrolls, hasEntries, -, hentries⟩ := h
  obtain ⟨entries, hentries⟩ := mapM_of_forall₂ (P := Json.IsEntry)
    (render_of_isEntry itemNamespace) (hasEntries.keepsLimit hv) hentries
  obtain ⟨rolls, hrolls⟩ := render_of_isRoll (hasRolls.keepsLimit hv) hrolls
  exact ⟨_, bind_eq_ok_iff.2 ⟨entries, hentries, bind_eq_ok_iff.2 ⟨rolls, hrolls, rfl⟩⟩⟩

theorem render_of_toTable (itemNamespace : Text) {v : Json} {name : Text} {t : LootTable}
    (hv : v.KeepsLimit) (h : v.toTable name = .ok t) : ∃ s, t.render itemNamespace = .ok s := by
  obtain ⟨-, hpools⟩ := toTable_eq_ok_iff.1 h
  generalize hp : t.pools = ps at hpools
  obtain ⟨hasPools, hpools⟩ := hpools
  obtain ⟨pools, hrender⟩ := mapM_of_forall₂ (P := Json.IsPool)
    (render_of_isPool itemNamespace) (hasPools.keepsLimit hv) hpools
  rw [← hp] at hrender
  exact ⟨_, bind_eq_ok_iff.2 ⟨pools, hrender, rfl⟩⟩

/-! ### Whole runs -/

theorem keepsLimit_of_loadDocument {t : FileTree} {p : Path} {limit : Nat} {v : Json}
    (h : loadDocument t p limit = .ok v) : v.KeepsLimit := by
  obtain ⟨bytes, -, h⟩ := bind_eq_ok_iff.1 h
  obtain ⟨text, -, h⟩ := bind_eq_ok_iff.1 h
  exact Json.keepsLimit_of_read (mapError_eq_ok_iff.1 h)

theorem render_of_loadTable (itemNamespace : Text) {t : FileTree} {limit : Nat} {suffix : Text}
    {p : Path} {table : LootTable} (h : loadTable t limit suffix p = .ok table) :
    ∃ s, table.render itemNamespace = .ok s := by
  obtain ⟨document, hdocument, h⟩ := bind_eq_ok_iff.1 h
  exact render_of_toTable itemNamespace (keepsLimit_of_loadDocument hdocument)
    (mapError_eq_ok_iff.1 h)

/-- The tables of a run are those of its sources, each loaded on its own. -/
theorem Generator.tables_eq_ok_iff {g : Generator} {t : FileTree} {tables : List LootTable} :
    g.tables t = .ok tables ↔ ∃ paths, g.sources t = .ok paths ∧
      paths.mapM (loadTable t g.limits.documents g.config.tableNameSuffix.text) = .ok tables := by
  rw [g.tables_eq, bind_eq_ok_iff]

theorem Generator.exists_renderTables {g : Generator} {t : FileTree} {tables : List LootTable}
    (h : g.tables t = .ok tables) : ∃ text, renderTables g.itemNamespace tables = .ok text := by
  obtain ⟨paths, -, hload⟩ := tables_eq_ok_iff.1 h
  obtain ⟨texts, htexts⟩ := exists_mapM_eq_ok (mapM_eq_ok_iff.1 hload)
    fun _ _ hload => render_of_loadTable g.itemNamespace hload
  exact ⟨_, bind_eq_ok_iff.2 ⟨texts, htexts, rfl⟩⟩

/-- A document whose integers keep the limit for numerals gives a table that is rendered, if it gives
a table at all, under every item namespace. The documents that are read from files are of this kind,
so the tables of a run are always rendered. -/
theorem decoded_tables_render :
    (∀ (v : Json) (name itemNamespace : Text) (t : LootTable), v.KeepsLimit →
      v.toTable name = .ok t → ∃ s, t.render itemNamespace = .ok s) ∧
    ∀ (g : Generator) (tree : FileTree) (tables : List LootTable), g.tables tree = .ok tables →
      ∃ s, renderTables g.itemNamespace tables = .ok s := by
  exact ⟨fun v name itemNamespace t hv ht => render_of_toTable itemNamespace hv ht,
    fun g tree tables h => g.exists_renderTables h⟩

/-- A document whose number of rolls is a double with more than 300 digits. -/
def hugeRolls : Text :=
  "\x7b\"pools\":[\x7b\"rolls\":1e308,\"entries\":[\x7b\"type\":\"minecraft:empty\",\"weight\":7\x7d]\x7d]\x7d"

/-- A directory with nothing but this document. -/
def hugeRollsTree : FileTree :=
  ((FileTree.empty []).put ["chests"] .directory).put ["chests", "huge.json"]
    (.file (hugeRolls.map fun c => UInt8.ofNat c.val))

/-- The generator for this directory with all settings left at their defaults. -/
def hugeRollsGenerator : Generator := .ofConfig ⟨.root, ["chests"]⟩ {}

theorem hugeRolls_render :
    (∃ v t, Json.KeepsLimit v ∧ v.toTable "HUGE_CHEST" = .ok t ∧
      ∃ s, t.render "minecraft" = .ok s) ∧
    ∃ tables, hugeRollsGenerator.tables hugeRollsTree = .ok tables ∧
      ∃ s, renderTables hugeRollsGenerator.itemNamespace tables = .ok s := by
  constructor
  · obtain ⟨t, ht⟩ : ∃ t, loadTable hugeRollsTree 5 "_CHEST" ⟨.root, ["chests", "huge.json"]⟩ =
        .ok t :=
      exists_eq_ok_of_isSome (by decide +kernel)
    obtain ⟨v, hv, ht⟩ := bind_eq_ok_iff.1 ht
    have hlimit := keepsLimit_of_loadDocument hv
    have htable := mapError_eq_ok_iff.1 ht
    exact ⟨v, t, hlimit, htable, decoded_tables_render.1 v _ _ t hlimit htable⟩
  · obtain ⟨tables, htables⟩ : ∃ tables, hugeRollsGenerator.tables hugeRollsTree = .ok tables :=
      exists_eq_ok_of_isSome (by decide +kernel)
    exact ⟨tables, htables, decoded_tables_render.2 _ _ tables htables⟩

end LootTables
