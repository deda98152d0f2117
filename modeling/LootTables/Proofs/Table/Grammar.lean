import LootTables.Proofs.Number.Narrowing
import LootTables.Proofs.Result
import LootTables.Table.Decode

/-!
# The grammar of documents

The documents that decode are those of a grammar, given here level by level as inductive relations
between a JSON value and what it stands for: integers and bounds, rolls, functions, entries, pools
and whole documents. The relations say what a document contains and nothing of the order in which
a decoder looks at it.

Each decoder is then characterised by the relation of its level, from `toInteger_eq_ok_iff` up to
`decodePools_eq_ok_iff`: it gives a model exactly when the grammar relates the value to this model.
In particular the grammar is unambiguous, and what is outside of it is refused.
-/

namespace LootTables

/-! ## The grammar -/

/-- The object has the field `name` with the value `v`; of a repeated name the first one counts. -/
abbrev Fields.Has (fields : Fields) (name : Text) (v : Json) : Prop := fields.lookup name = some v

/-- The object has no field `name`. -/
abbrev Fields.Lacks (fields : Fields) (name : Text) : Prop := fields.lookup name = none

namespace Json

/-- The value is a number that stands for the integer `n`: an integer, or a double without a
fraction. Booleans are no numbers. -/
inductive IsInteger : Json → Int → Prop
  | integer (n : Int) : IsInteger (.number (.integer n)) n
  | double {x : Binary binary64} {n : Int} (h : x.value = n) :
      IsInteger (.number (.double (.finite x))) n

/-- The value is a number whose double `x` is finite and stays finite when it is narrowed to a
single. -/
inductive IsBound : Json → Binary binary64 → Prop
  | double {x : Binary binary64} {s : Single} (fits : x.narrow? = some s) :
      IsBound (.number (.double (.finite x))) x
  | integer {n : Int} {x : Binary binary64} {s : Single} (near : Binary.ofInt? n = some x)
      (fits : x.narrow? = some s) : IsBound (.number (.integer n)) x

/-- The fields hold a lower and an upper bound. -/
inductive IsRange (fields : Fields) : Number → Number → Prop
  | intro {low high : Json} {min max : Binary binary64}
      (hasMin : fields.Has "min" low) (hmin : low.IsBound min)
      (hasMax : fields.Has "max" high) (hmax : high.IsBound max) :
      IsRange fields (.double (.finite min)) (.double (.finite max))

/-- A number of rolls, told by its shape. -/
inductive IsRoll : Json → Roll → Prop
  | constant {v : Json} {n : Int} (h : v.IsInteger n) : IsRoll v (.constant n)
  | uniform {fields : Fields} {min max : Number} (h : IsRange fields min max) :
      IsRoll (.object fields) (.uniform min max)

/-- The count of a function: a number, or an object that says how it is distributed. -/
inductive IsCount : Json → LootFunction → Prop
  | constant {v : Json} {n : Int} (h : v.IsInteger n) : IsCount v (.constantCount n)
  | uniform {fields : Fields} {min max : Number}
      (hasType : fields.Has "type" (.string "minecraft:uniform")) (h : IsRange fields min max) :
      IsCount (.object fields) (.uniformCount min max)

/-- A function, told by its tag: one of the five markers, or a count. -/
inductive IsFunction : Json → LootFunction → Prop
  | marker {fields : Fields} (m : Marker) (hasTag : fields.Has "function" (.string (tag m.name))) :
      IsFunction (.object fields) (.marker m)
  | count {fields : Fields} {v : Json} {f : LootFunction}
      (hasTag : fields.Has "function" (.string "minecraft:set_count"))
      (hasCount : fields.Has "count" v) (h : v.IsCount f) : IsFunction (.object fields) f

/-- The weight of an item, which is zero unless one is given. -/
inductive IsWeight (fields : Fields) : Int → Prop
  | absent (h : fields.Lacks "weight") : IsWeight fields 0
  | present {v : Json} {n : Int} (has : fields.Has "weight" v) (h : v.IsInteger n) :
      IsWeight fields n

/-- The functions of an item, of which there are none unless some are given. -/
inductive AreFunctions (fields : Fields) : List LootFunction → Prop
  | absent (h : fields.Lacks "functions") : AreFunctions fields []
  | present {items : List Json} {functions : List LootFunction}
      (has : fields.Has "functions" (.array items))
      (h : List.Forall₂ IsFunction items functions) : AreFunctions fields functions

/-- An item under its name; only a book that is enchanted at random gets another one. -/
inductive IsGiven (functions : List LootFunction) : Text → Text → Prop
  | enchantedBook (h : LootFunction.marker .enchantRandomly ∈ functions) :
      IsGiven functions "minecraft:book" "minecraft:enchanted_book"
  | book (h : LootFunction.marker .enchantRandomly ∉ functions) :
      IsGiven functions "minecraft:book" "minecraft:book"
  | other {name : Text} (h : name ≠ "minecraft:book") : IsGiven functions name name

/-- An entry: nothing with a weight, or an item, which is any other type. -/
inductive IsEntry : Json → Entry → Prop
  | empty {fields : Fields} {v : Json} {weight : Int}
      (hasType : fields.Has "type" (.string "minecraft:empty"))
      (hasWeight : fields.Has "weight" v) (h : v.IsInteger weight) :
      IsEntry (.object fields) (.empty weight)
  | item {fields : Fields} {type name given : Text} {weight : Int} {functions : List LootFunction}
      (hasType : fields.Has "type" (.string type)) (other : type ≠ "minecraft:empty")
      (hasName : fields.Has "name" (.string name))
      (hweight : IsWeight fields weight) (hfunctions : AreFunctions fields functions)
      (hgiven : IsGiven functions name given) :
      IsEntry (.object fields) (.item given weight functions)

/-- A pool, which has at least one entry. -/
inductive IsPool : Json → LootPool → Prop
  | intro {fields : Fields} {v : Json} {rolls : Roll} {items : List Json} {entries : List Entry}
      (hasRolls : fields.Has "rolls" v) (hrolls : v.IsRoll rolls)
      (hasEntries : fields.Has "entries" (.array items)) (nonempty : items ≠ [])
      (hentries : List.Forall₂ IsEntry items entries) : IsPool (.object fields) ⟨rolls, entries⟩

/-- A whole document. -/
inductive IsDocument : Json → List LootPool → Prop
  | intro {fields : Fields} {items : List Json} {pools : List LootPool}
      (hasPools : fields.Has "pools" (.array items))
      (hpools : List.Forall₂ IsPool items pools) : IsDocument (.object fields) pools

end Json

/-! ## Fields -/

@[simp] theorem within_eq_ok_iff {α : Type} {step : PathStep} {r : Except Defect α} {a : α} :
    within step r = .ok a ↔ r = .ok a := mapError_eq_ok_iff

@[simp] theorem defect_ne_ok {α : Type} {cause : Cause} {a : α} :
    (defect cause : Except Defect α) ≠ .ok a := by
  simp [defect]

theorem fields_eq_ok_iff {v : Json} {fields : Fields} :
    v.fields = .ok fields ↔ v = .object fields := by
  cases v <;> simp [Json.fields]

namespace Fields

variable {fields : Fields} {name : Text}

theorem required_eq_ok_iff {v : Json} :
    fields.required name = .ok v ↔ fields.lookup name = some v := by
  unfold required
  cases fields.lookup name <;> simp

theorem requiredString_eq_ok_iff {s : Text} :
    fields.requiredString name = .ok s ↔ fields.lookup name = some (.string s) := by
  unfold requiredString
  rw [bind_eq_ok_iff]
  constructor
  · rintro ⟨v, hv, h⟩
    rw [required_eq_ok_iff.1 hv]
    split at h
    · rw [pure_eq_ok_iff.1 h]
    · simp at h
  · intro h
    exact ⟨.string s, required_eq_ok_iff.2 h, rfl⟩

theorem asArray_eq_ok_iff {v : Json} {items : List Json} :
    asArray name v = .ok items ↔ v = .array items := by
  cases v <;> simp [asArray]

theorem requiredArray_eq_ok_iff {items : List Json} :
    fields.requiredArray name = .ok items ↔ fields.lookup name = some (.array items) := by
  unfold requiredArray
  rw [bind_eq_ok_iff]
  simp [required_eq_ok_iff, asArray_eq_ok_iff]

theorem optionalArray_eq_ok_iff {items : List Json} :
    fields.optionalArray name = .ok items ↔
      fields.lookup name = none ∧ items = [] ∨ fields.lookup name = some (.array items) := by
  unfold optionalArray
  split
  · next v h => simp [h, asArray_eq_ok_iff]
  · next h => simp [h, eq_comm]

end Fields

/-! ## Numbers -/

theorem toInteger_eq_ok_iff {v : Json} {n : Int} : v.toInteger = .ok n ↔ v.IsInteger n := by
  constructor
  · intro h
    unfold Json.toInteger at h
    split at h
    · cases h
      exact .integer n
    · next x =>
      split at h
      · next m hm =>
        cases h
        exact .double ((x.toInt?_eq_some_iff n).1 hm)
      · simp at h
    · simp at h
    · simp at h
  · rintro (_ | ⟨hvalue⟩)
    · rfl
    · next x => simp [Json.toInteger, (x.toInt?_eq_some_iff n).2 hvalue]

theorem asBound_eq_ok_iff {name : Text} {v : Json} {b : Number} :
    Fields.asBound name v = .ok b ↔ ∃ x, b = .double (.finite x) ∧ v.IsBound x := by
  constructor
  · intro h
    unfold Fields.asBound at h
    split at h
    · next n =>
      split at h
      · simp at h
      · next x hx =>
        split at h
        · simp at h
        · next s hs =>
          cases h
          obtain ⟨y, rfl, fits⟩ := toSingle_eq_ok_iff.1 hs
          refine ⟨y, rfl, ?_⟩
          cases n with
          | integer n =>
            simp only [Number.toDouble] at hx
            split at hx
            · next z hz =>
              cases hx
              exact .integer hz fits
            · simp at hx
          | double x =>
            cases hx
            exact .double fits
    · simp at h
  · rintro ⟨x, rfl, h⟩
    cases h with
    | double fits => simp [Fields.asBound, Number.toDouble, Double.toSingle, fits]
    | integer near fits => simp [Fields.asBound, Number.toDouble, Double.toSingle, near, fits]

namespace Fields

variable {fields : Fields} {name : Text}

theorem requiredInteger_eq_ok_iff {n : Int} :
    fields.requiredInteger name = .ok n ↔ ∃ v, fields.lookup name = some v ∧ v.IsInteger n := by
  unfold requiredInteger
  simp [bind_eq_ok_iff, required_eq_ok_iff, toInteger_eq_ok_iff]

theorem optionalInteger_eq_ok_iff {n : Int} :
    fields.optionalInteger name = .ok n ↔
      fields.lookup name = none ∧ n = 0 ∨ ∃ v, fields.lookup name = some v ∧ v.IsInteger n := by
  unfold optionalInteger
  split
  · next v h => simp [h, toInteger_eq_ok_iff]
  · next h => simp [h, eq_comm]

theorem bound_eq_ok_iff {b : Number} :
    fields.bound name = .ok b ↔
      ∃ v, fields.lookup name = some v ∧ ∃ x, b = .double (.finite x) ∧ v.IsBound x := by
  unfold bound
  simp [bind_eq_ok_iff, required_eq_ok_iff, asBound_eq_ok_iff]

end Fields

/-! ## The levels of a document -/

theorem decodeItems_eq_ok_iff {α : Type} {decode : Json → Except Defect α} {P : Json → α → Prop}
    (h : ∀ v a, decode v = .ok a ↔ P v a) {index : Nat} {items : List Json} {as : List α} :
    decodeItems decode index items = .ok as ↔ List.Forall₂ P items as := by
  induction items generalizing index as with
  | nil =>
    rw [decodeItems, List.forall₂_nil_left_iff]
    simp [eq_comm]
  | cons item items ih =>
    rw [decodeItems, List.forall₂_cons_left_iff]
    simp only [bind_eq_ok_iff, within_eq_ok_iff, pure_eq_ok_iff, h, ih]
    constructor
    · rintro ⟨a, ha, rest, hrest, rfl⟩
      exact ⟨a, rest, ha, hrest, rfl⟩
    · rintro ⟨a, rest, ha, hrest, rfl⟩
      exact ⟨a, ha, rest, hrest, rfl⟩

theorem isRange_iff {fields : Fields} {min max : Number} :
    fields.bound "min" = .ok min ∧ fields.bound "max" = .ok max ↔ Json.IsRange fields min max := by
  simp only [Fields.bound_eq_ok_iff]
  constructor
  · rintro ⟨⟨low, hasMin, x, rfl, hmin⟩, high, hasMax, y, rfl, hmax⟩
    exact .intro hasMin hmin hasMax hmax
  · rintro ⟨hasMin, hmin, hasMax, hmax⟩
    exact ⟨⟨_, hasMin, _, rfl, hmin⟩, _, hasMax, _, rfl, hmax⟩

theorem decodeRoll_eq_ok_iff {v : Json} {rolls : Roll} :
    decodeRoll v = .ok rolls ↔ v.IsRoll rolls := by
  constructor
  · intro h
    unfold decodeRoll at h
    split at h
    · obtain ⟨min, hmin, h⟩ := bind_eq_ok_iff.1 h
      obtain ⟨max, hmax, h⟩ := bind_eq_ok_iff.1 h
      rw [← pure_eq_ok_iff.1 h]
      exact .uniform (isRange_iff.1 ⟨hmin, hmax⟩)
    · obtain ⟨n, hn, h⟩ := bind_eq_ok_iff.1 h
      rw [← pure_eq_ok_iff.1 h]
      exact .constant (toInteger_eq_ok_iff.1 hn)
  · intro h
    cases h with
    | uniform h =>
      obtain ⟨hmin, hmax⟩ := isRange_iff.2 h
      exact bind_eq_ok_iff.2 ⟨_, hmin, bind_eq_ok_iff.2 ⟨_, hmax, rfl⟩⟩
    | @constant _ n h =>
      -- An integer is no object, so the second case of the decoder is the one that applies.
      have hn := toInteger_eq_ok_iff.2 h
      cases h <;> exact bind_eq_ok_iff.2 ⟨n, hn, rfl⟩

theorem decodeCount_eq_ok_iff {v : Json} {f : LootFunction} :
    decodeCount v = .ok f ↔ v.IsCount f := by
  constructor
  · intro h
    unfold decodeCount at h
    split at h
    · obtain ⟨distribution, hd, h⟩ := bind_eq_ok_iff.1 h
      split at h
      · next huniform =>
        obtain ⟨min, hmin, h⟩ := bind_eq_ok_iff.1 h
        obtain ⟨max, hmax, h⟩ := bind_eq_ok_iff.1 h
        rw [← pure_eq_ok_iff.1 h]
        subst huniform
        exact .uniform (Fields.requiredString_eq_ok_iff.1 hd) (isRange_iff.1 ⟨hmin, hmax⟩)
      · simp at h
    · obtain ⟨n, hn, h⟩ := bind_eq_ok_iff.1 h
      rw [← pure_eq_ok_iff.1 h]
      exact .constant (toInteger_eq_ok_iff.1 hn)
  · intro h
    cases h with
    | uniform hasType h =>
      obtain ⟨hmin, hmax⟩ := isRange_iff.2 h
      refine bind_eq_ok_iff.2 ⟨_, Fields.requiredString_eq_ok_iff.2 hasType, ?_⟩
      rw [if_pos (by decide)]
      exact bind_eq_ok_iff.2 ⟨_, hmin, bind_eq_ok_iff.2 ⟨_, hmax, rfl⟩⟩
    | @constant _ n h =>
      have hn := toInteger_eq_ok_iff.2 h
      cases h <;> exact bind_eq_ok_iff.2 ⟨n, hn, rfl⟩

theorem ofTag?_eq_some_iff {t : Text} {m : Marker} : Marker.ofTag? t = some m ↔ t = tag m.name := by
  unfold Marker.ofTag?
  constructor
  · intro h
    have hfound := List.find?_some h
    exact (of_decide_eq_true hfound).symm
  · rintro rfl
    cases m <;> decide

/-- No marker has the tag of a count. -/
theorem tag_name_ne (m : Marker) : tag m.name ≠ tag "set_count" := by
  cases m <;> decide

theorem decodeFunction_eq_ok_iff {v : Json} {f : LootFunction} :
    decodeFunction v = .ok f ↔ v.IsFunction f := by
  constructor
  · intro h
    unfold decodeFunction at h
    obtain ⟨fields, hfields, hbody⟩ := bind_eq_ok_iff.1 h
    obtain rfl := fields_eq_ok_iff.1 hfields
    clear h
    obtain ⟨t, ht, hbody⟩ := bind_eq_ok_iff.1 hbody
    have hasTag := Fields.requiredString_eq_ok_iff.1 ht
    split at hbody
    · next hcount =>
      subst hcount
      obtain ⟨count, hcount, hbody⟩ := bind_eq_ok_iff.1 hbody
      exact .count hasTag (Fields.required_eq_ok_iff.1 hcount)
        (decodeCount_eq_ok_iff.1 (within_eq_ok_iff.1 hbody))
    · split at hbody
      · next m hm =>
        rw [← pure_eq_ok_iff.1 hbody]
        rw [ofTag?_eq_some_iff.1 hm] at hasTag
        exact .marker m hasTag
      · simp at hbody
  · intro h
    cases h with
    | @marker fields m hasTag =>
      refine bind_eq_ok_iff.2 ⟨fields, rfl, bind_eq_ok_iff.2 ⟨_, Fields.requiredString_eq_ok_iff.2 hasTag, ?_⟩⟩
      rw [if_neg (tag_name_ne m), ofTag?_eq_some_iff.2 rfl]
      rfl
    | @count fields count f hasTag hasCount h =>
      refine bind_eq_ok_iff.2 ⟨fields, rfl, bind_eq_ok_iff.2 ⟨_, Fields.requiredString_eq_ok_iff.2 hasTag, ?_⟩⟩
      rw [if_pos (by decide)]
      exact bind_eq_ok_iff.2 ⟨count, Fields.required_eq_ok_iff.2 hasCount,
        within_eq_ok_iff.2 (decodeCount_eq_ok_iff.2 h)⟩

theorem isWeight_iff {fields : Fields} {weight : Int} :
    fields.optionalInteger "weight" = .ok weight ↔ Json.IsWeight fields weight := by
  rw [Fields.optionalInteger_eq_ok_iff]
  constructor
  · rintro (⟨h, rfl⟩ | ⟨v, has, h⟩)
    · exact .absent h
    · exact .present has h
  · rintro (h | ⟨has, h⟩)
    · exact .inl ⟨h, rfl⟩
    · exact .inr ⟨_, has, h⟩

theorem areFunctions_iff {fields : Fields} {functions : List LootFunction} :
    (∃ items, fields.optionalArray "functions" = .ok items ∧
      decodeItems decodeFunction 0 items = .ok functions) ↔ Json.AreFunctions fields functions := by
  simp only [Fields.optionalArray_eq_ok_iff, decodeItems_eq_ok_iff @decodeFunction_eq_ok_iff]
  constructor
  · rintro ⟨items, ⟨h, rfl⟩ | has, hitems⟩
    · rw [List.forall₂_nil_left_iff.1 hitems]
      exact .absent h
    · exact .present has hitems
  · rintro (h | ⟨has, hitems⟩)
    · exact ⟨[], .inl ⟨h, rfl⟩, .nil⟩
    · exact ⟨_, .inr has, hitems⟩

theorem givenItem_eq_iff {functions : List LootFunction} {name given : Text} :
    givenItem name functions = given ↔ Json.IsGiven functions name given := by
  unfold givenItem
  constructor
  · split
    · next h =>
      obtain ⟨rfl, henchanted⟩ := h
      rintro rfl
      exact .enchantedBook henchanted
    · next h =>
      rintro rfl
      by_cases hbook : name = tag "book"
      · subst hbook
        exact .book fun henchanted => h ⟨rfl, henchanted⟩
      · exact .other hbook
  · rintro (h | h | h)
    · rw [if_pos ⟨rfl, h⟩]
      rfl
    · rw [if_neg fun hboth => h hboth.2]
    · rw [if_neg fun hboth => h hboth.1]

theorem decodeEntry_eq_ok_iff {v : Json} {entry : Entry} :
    decodeEntry v = .ok entry ↔ v.IsEntry entry := by
  constructor
  · intro h
    unfold decodeEntry at h
    obtain ⟨fields, hfields, hbody⟩ := bind_eq_ok_iff.1 h
    obtain rfl := fields_eq_ok_iff.1 hfields
    clear h
    obtain ⟨t, ht, hbody⟩ := bind_eq_ok_iff.1 hbody
    have hasType := Fields.requiredString_eq_ok_iff.1 ht
    split at hbody
    · next hempty =>
      subst hempty
      obtain ⟨weight, hweight, hbody⟩ := bind_eq_ok_iff.1 hbody
      obtain ⟨w, hasWeight, hw⟩ := Fields.requiredInteger_eq_ok_iff.1 hweight
      rw [← pure_eq_ok_iff.1 hbody]
      exact .empty hasType hasWeight hw
    · next hother =>
      obtain ⟨name, hname, hbody⟩ := bind_eq_ok_iff.1 hbody
      obtain ⟨weight, hweight, hbody⟩ := bind_eq_ok_iff.1 hbody
      obtain ⟨items, hitems, hbody⟩ := bind_eq_ok_iff.1 hbody
      obtain ⟨functions, hfunctions, hbody⟩ := bind_eq_ok_iff.1 hbody
      rw [← pure_eq_ok_iff.1 hbody]
      exact .item hasType hother (Fields.requiredString_eq_ok_iff.1 hname) (isWeight_iff.1 hweight)
        (areFunctions_iff.1 ⟨items, hitems, within_eq_ok_iff.1 hfunctions⟩) (givenItem_eq_iff.1 rfl)
  · intro h
    cases h with
    | @empty fields v weight hasType hasWeight h =>
      refine bind_eq_ok_iff.2 ⟨fields, rfl, bind_eq_ok_iff.2 ⟨_, Fields.requiredString_eq_ok_iff.2 hasType, ?_⟩⟩
      rw [if_pos (by decide)]
      exact bind_eq_ok_iff.2 ⟨weight, Fields.requiredInteger_eq_ok_iff.2 ⟨v, hasWeight, h⟩, rfl⟩
    | @item fields type name given weight functions hasType other hasName hweight hfunctions hgiven =>
      obtain ⟨items, hitems, hdecode⟩ := areFunctions_iff.2 hfunctions
      refine bind_eq_ok_iff.2 ⟨fields, rfl, bind_eq_ok_iff.2 ⟨_, Fields.requiredString_eq_ok_iff.2 hasType, ?_⟩⟩
      rw [if_neg fun h => other (h.trans (by decide)), ← givenItem_eq_iff.2 hgiven]
      exact bind_eq_ok_iff.2 ⟨name, Fields.requiredString_eq_ok_iff.2 hasName,
        bind_eq_ok_iff.2 ⟨weight, isWeight_iff.2 hweight, bind_eq_ok_iff.2 ⟨items, hitems,
          bind_eq_ok_iff.2 ⟨functions, within_eq_ok_iff.2 hdecode, rfl⟩⟩⟩⟩

theorem decodePool_eq_ok_iff {v : Json} {pool : LootPool} :
    decodePool v = .ok pool ↔ v.IsPool pool := by
  constructor
  · intro h
    unfold decodePool at h
    obtain ⟨fields, hfields, hbody⟩ := bind_eq_ok_iff.1 h
    obtain rfl := fields_eq_ok_iff.1 hfields
    clear h
    obtain ⟨v, hv, hbody⟩ := bind_eq_ok_iff.1 hbody
    obtain ⟨rolls, hrolls, hbody⟩ := bind_eq_ok_iff.1 hbody
    obtain ⟨items, hitems, hbody⟩ := bind_eq_ok_iff.1 hbody
    split at hbody
    · simp at hbody
    · next hnonempty =>
      obtain ⟨entries, hentries, hbody⟩ := bind_eq_ok_iff.1 hbody
      rw [← pure_eq_ok_iff.1 hbody]
      exact .intro (Fields.required_eq_ok_iff.1 hv)
        (decodeRoll_eq_ok_iff.1 (within_eq_ok_iff.1 hrolls))
        (Fields.requiredArray_eq_ok_iff.1 hitems) (fun h => hnonempty (List.isEmpty_iff.2 h))
        ((decodeItems_eq_ok_iff @decodeEntry_eq_ok_iff).1 (within_eq_ok_iff.1 hentries))
  · rintro ⟨hasRolls, hrolls, hasEntries, nonempty, hentries⟩
    refine bind_eq_ok_iff.2 ⟨_, rfl, bind_eq_ok_iff.2 ⟨_, Fields.required_eq_ok_iff.2 hasRolls,
      bind_eq_ok_iff.2 ⟨_, within_eq_ok_iff.2 (decodeRoll_eq_ok_iff.2 hrolls),
        bind_eq_ok_iff.2 ⟨_, Fields.requiredArray_eq_ok_iff.2 hasEntries, ?_⟩⟩⟩⟩
    rw [if_neg fun h => nonempty (List.isEmpty_iff.1 h)]
    exact bind_eq_ok_iff.2 ⟨_, within_eq_ok_iff.2
      ((decodeItems_eq_ok_iff @decodeEntry_eq_ok_iff).2 hentries), rfl⟩

theorem decodePools_eq_ok_iff {v : Json} {pools : List LootPool} :
    decodePools v = .ok pools ↔ v.IsDocument pools := by
  constructor
  · intro h
    unfold decodePools at h
    obtain ⟨fields, hfields, hbody⟩ := bind_eq_ok_iff.1 h
    obtain rfl := fields_eq_ok_iff.1 hfields
    clear h
    obtain ⟨items, hitems, hbody⟩ := bind_eq_ok_iff.1 hbody
    exact .intro (Fields.requiredArray_eq_ok_iff.1 hitems)
      ((decodeItems_eq_ok_iff @decodePool_eq_ok_iff).1 (within_eq_ok_iff.1 hbody))
  · rintro ⟨hasPools, hpools⟩
    exact bind_eq_ok_iff.2 ⟨_, rfl, bind_eq_ok_iff.2 ⟨_, Fields.requiredArray_eq_ok_iff.2 hasPools,
      within_eq_ok_iff.2 ((decodeItems_eq_ok_iff @decodePool_eq_ok_iff).2 hpools)⟩⟩

/-! ## Documents -/

theorem toTable_eq_ok_iff {v : Json} {name : Text} {t : LootTable} :
    v.toTable name = .ok t ↔ t.name = name ∧ v.IsDocument t.pools := by
  rw [← decodePools_eq_ok_iff]
  unfold Json.toTable
  obtain ⟨tableName, pools⟩ := t
  cases decodePools v <;> simp [eq_comm]

end LootTables
