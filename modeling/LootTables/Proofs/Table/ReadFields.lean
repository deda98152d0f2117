import LootTables.Proofs.Table.Grammar

/-!
# The fields that are read

Decoding looks at documented fields only. Two values are *alike* to a decoder if they agree on the
fields that it looks up in them, level by level: objects may hold any other fields, in any order, and
which fields count in an entry or in a function depends on its tag. Where a plain value is expected,
an array or an object is refused as such, so nothing in it counts. Nor does anything that comes after
the first defect, in the order in which a decoder looks at the parts of a value.

Each decoder gives the same result for values that are alike to it, up to whole documents
(`toTable_eq_of_alike`): the same table, or the same defect at the same place.
-/

namespace LootTables

/-- The field `name` is missing in both objects, or there in both with related values. -/
abbrev Fields.AlikeAt (name : Text) (R : Json → Json → Prop) (fs gs : Fields) : Prop :=
  Option.Rel R (fs.lookup name) (gs.lookup name)

namespace Json

/-! ### Values that are alike -/

/-- Alike where a plain value is expected. -/
inductive LeafAlike : Json → Json → Prop
  | refl (v : Json) : LeafAlike v v
  | array (xs ys : List Json) : LeafAlike (.array xs) (.array ys)
  | object (fs gs : Fields) : LeafAlike (.object fs) (.object gs)

/-- Alike where an array is expected, whose lists of items have to be related. -/
inductive ArrayAlike (R : List Json → List Json → Prop) : Json → Json → Prop
  | items {xs ys : List Json} (h : R xs ys) : ArrayAlike R (.array xs) (.array ys)
  | other {v w : Json} (hkind : v.kind ≠ .array) (h : LeafAlike v w) : ArrayAlike R v w

/-- Alike where an object is expected, whose fields have to be related. -/
inductive ObjectAlike (R : Fields → Fields → Prop) : Json → Json → Prop
  | fields {fs gs : Fields} (h : R fs gs) : ObjectAlike R (.object fs) (.object gs)
  | other {v w : Json} (hkind : v.kind ≠ .object) (h : LeafAlike v w) : ObjectAlike R v w

/-- Items that are related one by one, up to the first that stands for nothing. -/
inductive ItemsAlike {α : Type} (P : Json → α → Prop) (R : Json → Json → Prop) :
    List Json → List Json → Prop
  | nil : ItemsAlike P R [] []
  | cons {v w : Json} {xs ys : List Json} (h : R v w) (hrest : ∀ a, P v a → ItemsAlike P R xs ys) :
      ItemsAlike P R (v :: xs) (w :: ys)

/-- In a range the bounds are read. -/
structure RangeAlike (fs gs : Fields) : Prop where
  min : Fields.AlikeAt "min" LeafAlike fs gs
  max : ∀ v x, fs.Has "min" v → v.IsBound x → Fields.AlikeAt "max" LeafAlike fs gs

/-- In an object for a count its type is read, and the bounds of a uniform one. -/
structure CountFieldsAlike (fs gs : Fields) : Prop where
  type : Fields.AlikeAt "type" LeafAlike fs gs
  range : fs.Has "type" (.string "minecraft:uniform") → RangeAlike fs gs

/-- In a function its tag is read, and the count if that is what the function sets. -/
structure FunctionFieldsAlike (fs gs : Fields) : Prop where
  tag : Fields.AlikeAt "function" LeafAlike fs gs
  count : fs.Has "function" (.string "minecraft:set_count") →
    Fields.AlikeAt "count" (ObjectAlike CountFieldsAlike) fs gs

/-- In an item the name is read, then the weight, then the functions. -/
structure ItemFieldsAlike (fs gs : Fields) : Prop where
  name : Fields.AlikeAt "name" LeafAlike fs gs
  weight : ∀ name, fs.Has "name" (.string name) → Fields.AlikeAt "weight" LeafAlike fs gs
  functions : ∀ name weight, fs.Has "name" (.string name) → IsWeight fs weight →
    Fields.AlikeAt "functions" (ArrayAlike (ItemsAlike IsFunction (ObjectAlike FunctionFieldsAlike))) fs gs

/-- In an entry its type is read, and what is read then depends on it. -/
structure EntryFieldsAlike (fs gs : Fields) : Prop where
  type : Fields.AlikeAt "type" LeafAlike fs gs
  empty : fs.Has "type" (.string "minecraft:empty") → Fields.AlikeAt "weight" LeafAlike fs gs
  item : ∀ type, fs.Has "type" (.string type) → type ≠ "minecraft:empty" → ItemFieldsAlike fs gs

/-- In a pool the rolls are read, then the entries. -/
structure PoolFieldsAlike (fs gs : Fields) : Prop where
  rolls : Fields.AlikeAt "rolls" (ObjectAlike RangeAlike) fs gs
  entries : ∀ v roll, fs.Has "rolls" v → v.IsRoll roll →
    Fields.AlikeAt "entries" (ArrayAlike (ItemsAlike IsEntry (ObjectAlike EntryFieldsAlike))) fs gs

/-- In a document only the pools are read. -/
def DocumentAlike : Json → Json → Prop :=
  ObjectAlike (Fields.AlikeAt "pools" (ArrayAlike (ItemsAlike IsPool (ObjectAlike PoolFieldsAlike))))

/-! ### Plain values -/

namespace LeafAlike

variable {v w : Json}

theorem toInteger_eq (h : LeafAlike v w) : v.toInteger = w.toInteger := by
  cases h <;> rfl

theorem asBound_eq (h : LeafAlike v w) (name : Text) :
    Fields.asBound name v = Fields.asBound name w := by
  cases h <;> rfl

end LeafAlike

/-! ### Objects and arrays -/

variable {α : Type} {v w : Json}

/-- What treats all arrays in the same way, and objects with related fields, gives the same for values
that are alike. -/
theorem ObjectAlike.congr {R : Fields → Fields → Prop} {decode : Json → Except Defect α}
    (h : ObjectAlike R v w) (harray : ∀ xs ys, decode (.array xs) = decode (.array ys))
    (hfields : ∀ fs gs, R fs gs → decode (.object fs) = decode (.object gs)) : decode v = decode w := by
  cases h with
  | fields h => exact hfields _ _ h
  | other hkind h =>
    cases h with
    | refl v => rfl
    | array xs ys => exact harray xs ys
    | object fs gs => exact absurd rfl hkind

/-- What is done with the fields of values that are alike depends on the fields that count. -/
theorem ObjectAlike.fields_bind_eq {R : Fields → Fields → Prop} {body : Fields → Except Defect α}
    (h : ObjectAlike R v w) (hbody : ∀ fs gs, R fs gs → body fs = body gs) :
    v.fields >>= body = w.fields >>= body := by
  show (fun u : Json => u.fields >>= body) v = (fun u : Json => u.fields >>= body) w
  apply h.congr
  · intro xs ys
    rfl
  · exact hbody

theorem ArrayAlike.asArray_bind_eq {R : List Json → List Json → Prop}
    {body : List Json → Except Defect α} {name : Text} (h : ArrayAlike R v w)
    (hbody : ∀ xs ys, R xs ys → body xs = body ys) :
    Fields.asArray name v >>= body = Fields.asArray name w >>= body := by
  cases h with
  | items h => exact hbody _ _ h
  | other hkind h =>
    cases h with
    | refl v =>
      cases v with
      | array items => exact absurd rfl hkind
      | _ => rfl
    | array xs ys => exact absurd rfl hkind
    | object fs gs => rfl

end Json

/-! ### Fields -/

namespace Fields

open Json (LeafAlike ArrayAlike)

variable {α : Type} {fs gs : Fields} {name : Text}

/-- What is done with a required field depends on what the values of this field are related in. -/
theorem AlikeAt.required_bind_eq {R : Json → Json → Prop} {body body' : Json → Except Defect α}
    (h : AlikeAt name R fs gs) (hbody : ∀ v w, fs.Has name v → R v w → body v = body' w) :
    fs.required name >>= body = gs.required name >>= body' := by
  unfold AlikeAt at h
  unfold required
  unfold Has at hbody
  generalize fs.lookup name = a at h hbody
  generalize gs.lookup name = b at h
  cases h with
  | some h => exact hbody _ _ rfl h
  | none => rfl

theorem AlikeAt.requiredString_eq (h : AlikeAt name LeafAlike fs gs) :
    fs.requiredString name = gs.requiredString name := by
  apply h.required_bind_eq
  intro v w _ hvw
  cases hvw <;> rfl

/-- What is done with a required string may differ for other strings than the one that is there. -/
theorem AlikeAt.requiredString_bind_eq {body body' : Text → Except Defect α}
    (h : AlikeAt name LeafAlike fs gs)
    (hbody : ∀ s, fs.Has name (.string s) → body s = body' s) :
    fs.requiredString name >>= body = gs.requiredString name >>= body' := by
  rw [← h.requiredString_eq]
  apply bind_congr_of_ok
  intro s hs
  exact hbody s (requiredString_eq_ok_iff.1 hs)

theorem AlikeAt.requiredInteger_eq {R : Json → Json → Prop} (h : AlikeAt name R fs gs)
    (hinteger : ∀ v w, R v w → v.toInteger = w.toInteger) :
    fs.requiredInteger name = gs.requiredInteger name := by
  apply h.required_bind_eq
  intro v w _ hvw
  rw [hinteger v w hvw]

theorem AlikeAt.bound_eq (h : AlikeAt name LeafAlike fs gs) : fs.bound name = gs.bound name := by
  apply h.required_bind_eq
  intro v w _ hvw
  rw [hvw.asBound_eq]

theorem AlikeAt.optionalInteger_eq {R : Json → Json → Prop} (h : AlikeAt name R fs gs)
    (hinteger : ∀ v w, R v w → v.toInteger = w.toInteger) :
    fs.optionalInteger name = gs.optionalInteger name := by
  unfold AlikeAt at h
  unfold optionalInteger
  generalize fs.lookup name = a at h
  generalize gs.lookup name = b at h
  cases h with
  | some h => simp only [hinteger _ _ h]
  | none => rfl

theorem AlikeAt.requiredArray_bind_eq {R : List Json → List Json → Prop}
    {body : List Json → Except Defect α} (h : AlikeAt name (ArrayAlike R) fs gs)
    (hbody : ∀ xs ys, R xs ys → body xs = body ys) :
    fs.requiredArray name >>= body = gs.requiredArray name >>= body := by
  unfold requiredArray
  rw [bind_assoc, bind_assoc]
  apply h.required_bind_eq
  intro v w _ hvw
  exact hvw.asArray_bind_eq hbody

theorem AlikeAt.optionalArray_bind_eq {R : List Json → List Json → Prop}
    {body : List Json → Except Defect α} (h : AlikeAt name (ArrayAlike R) fs gs)
    (hbody : ∀ xs ys, R xs ys → body xs = body ys) :
    fs.optionalArray name >>= body = gs.optionalArray name >>= body := by
  unfold AlikeAt at h
  unfold optionalArray
  generalize fs.lookup name = a at h
  generalize gs.lookup name = b at h
  cases h with
  | some h => exact h.asArray_bind_eq hbody
  | none => rfl

end Fields

/-! ### The levels of a document -/

theorem decodeItems_congr {α : Type} {decode : Json → Except Defect α} {P : Json → α → Prop}
    {R : Json → Json → Prop} (hok : ∀ v a, decode v = .ok a ↔ P v a)
    (hdecode : ∀ v w, R v w → decode v = decode w) {xs ys : List Json}
    (h : Json.ItemsAlike P R xs ys) (index : Nat) :
    decodeItems decode index xs = decodeItems decode index ys := by
  induction h generalizing index with
  | nil => rfl
  | @cons v w xs ys hvw _ ih =>
    rw [decodeItems, decodeItems, ← hdecode v w hvw]
    apply bind_congr_of_ok
    intro a ha
    rw [ih a ((hok v a).1 (within_eq_ok_iff.1 ha))]

theorem range_congr {α : Type} {fs gs : Fields} (h : Json.RangeAlike fs gs)
    (make : Number → Number → α) :
    (do
      let min ← fs.bound "min"
      let max ← fs.bound "max"
      return make min max) = (do
      let min ← gs.bound "min"
      let max ← gs.bound "max"
      return make min max) := by
  rw [← h.min.bound_eq]
  apply bind_congr_of_ok
  intro min hmin
  obtain ⟨v, has, x, -, hx⟩ := Fields.bound_eq_ok_iff.1 hmin
  rw [(h.max v x has hx).bound_eq]

theorem decodeRoll_congr {v w : Json} (h : v.ObjectAlike Json.RangeAlike w) :
    decodeRoll v = decodeRoll w := by
  apply h.congr
  · intro xs ys
    rfl
  · intro fs gs h
    exact range_congr h Roll.uniform

theorem decodeCount_congr {v w : Json} (h : v.ObjectAlike Json.CountFieldsAlike w) :
    decodeCount v = decodeCount w := by
  apply h.congr
  · intro xs ys
    rfl
  · intro fs gs h
    apply h.type.requiredString_bind_eq
    intro type hasType
    by_cases huniform : type = tag "uniform"
    · rw [if_pos huniform, if_pos huniform]
      rw [huniform] at hasType
      exact range_congr (h.range hasType) LootFunction.uniformCount
    · rw [if_neg huniform, if_neg huniform]

theorem decodeFunction_congr {v w : Json} (h : v.ObjectAlike Json.FunctionFieldsAlike w) :
    decodeFunction v = decodeFunction w := by
  apply h.fields_bind_eq
  intro fs gs h
  apply h.tag.requiredString_bind_eq
  intro t hasTag
  by_cases hcount : t = tag "set_count"
  · rw [if_pos hcount, if_pos hcount]
    rw [hcount] at hasTag
    apply (h.count hasTag).required_bind_eq
    intro v w _ hvw
    rw [decodeCount_congr hvw]
  · rw [if_neg hcount, if_neg hcount]

theorem decodeEntry_congr {v w : Json} (h : v.ObjectAlike Json.EntryFieldsAlike w) :
    decodeEntry v = decodeEntry w := by
  apply h.fields_bind_eq
  intro fs gs h
  apply h.type.requiredString_bind_eq
  intro type hasType
  by_cases hempty : type = tag "empty"
  · rw [hempty] at hasType
    rw [if_pos hempty, if_pos hempty,
      (h.empty hasType).requiredInteger_eq fun _ _ hvw => hvw.toInteger_eq]
  · have hitem := h.item type hasType hempty
    rw [if_neg hempty, if_neg hempty]
    apply hitem.name.requiredString_bind_eq
    intro name hasName
    rw [← (hitem.weight name hasName).optionalInteger_eq fun _ _ hvw => hvw.toInteger_eq]
    apply bind_congr_of_ok
    intro weight hweight
    apply (hitem.functions name weight hasName (isWeight_iff.1 hweight)).optionalArray_bind_eq
    intro xs ys hitems
    rw [decodeItems_congr @decodeFunction_eq_ok_iff @decodeFunction_congr hitems]

theorem decodePool_congr {v w : Json} (h : v.ObjectAlike Json.PoolFieldsAlike w) :
    decodePool v = decodePool w := by
  apply h.fields_bind_eq
  intro fs gs h
  apply h.rolls.required_bind_eq
  intro rolls rolls' hasRolls hrolls
  rw [← decodeRoll_congr hrolls]
  apply bind_congr_of_ok
  intro roll hroll
  have hroll := decodeRoll_eq_ok_iff.1 (within_eq_ok_iff.1 hroll)
  apply (h.entries rolls roll hasRolls hroll).requiredArray_bind_eq
  intro xs ys hitems
  have hempty : xs.isEmpty = ys.isEmpty := by cases hitems <;> rfl
  rw [hempty, decodeItems_congr @decodeEntry_eq_ok_iff @decodeEntry_congr hitems]

theorem decodePools_congr {v w : Json} (h : v.DocumentAlike w) : decodePools v = decodePools w := by
  apply Json.ObjectAlike.fields_bind_eq h
  intro fs gs h
  apply h.requiredArray_bind_eq
  intro xs ys hitems
  rw [decodeItems_congr @decodePool_eq_ok_iff @decodePool_congr hitems]

/-! ### Documents -/

/-- Documents that agree on the fields that are read give the same: the same table, or the same defect
with the same path and cause. -/
theorem toTable_eq_of_alike {v w : Json} (h : v.DocumentAlike w) (name : Text) :
    v.toTable name = w.toTable name := by
  unfold Json.toTable
  rw [decodePools_congr h]

/-- A document with a function that is not known. -/
def renamedBook : Json :=
  .object [("pools", .array [.object [("rolls", .number (.integer 1)),
    ("entries", .array [.object [("type", .string "minecraft:item"), ("name", .string "minecraft:book"),
      ("functions", .array [.object [("function", .string "minecraft:enchant_randomly")],
        .object [("function", .string "minecraft:set_name"), ("count", .null)]])]])]])]

/-- The same with other fields besides, among them some that are read elsewhere, in another order, and
with something after the function that is not known. -/
def annotatedBook : Json :=
  .object [("type", .string "minecraft:chest"), ("pools", .array [.object [("conditions", .array []),
    ("entries", .array [.object [
      ("functions", .array [
        .object [("count", .array []), ("function", .string "minecraft:enchant_randomly")],
        .object [("function", .string "minecraft:set_name"), ("name", .object [])], .null]),
      ("name", .string "minecraft:book"), ("quality", .null), ("type", .string "minecraft:item")]]),
    ("rolls", .number (.integer 1))]])]

/-- Of a function that sets no count nothing but the tag is read. -/
theorem functionAlike_of_tag {fs gs : Fields} {t : Text} (hfs : fs.Has "function" (.string t))
    (hgs : gs.Has "function" (.string t)) (ht : t ≠ "minecraft:set_count") :
    (Json.object fs).ObjectAlike Json.FunctionFieldsAlike (.object gs) := by
  refine .fields ⟨?_, ?_⟩
  · unfold Fields.AlikeAt
    rw [hfs, hgs]
    exact .some (.refl _)
  · intro hcount
    cases hfs.symm.trans hcount
    exact absurd rfl ht

/-- Both are refused for that function. -/
theorem annotatedBook_toTable : renamedBook.DocumentAlike annotatedBook ∧
    annotatedBook.toTable "BOOK" = .error ⟨⟨[.field "pools", .item 0, .field "entries", .item 0,
      .field "functions", .item 1], .unsupported "minecraft:set_name"⟩, "BOOK"⟩ := by
  have halike : renamedBook.DocumentAlike annotatedBook := by
    refine .fields (.some (.items (.cons (.fields ⟨?rolls, ?entries⟩) fun _ _ => .nil)))
    case rolls => exact .some (.other (by decide) (.refl _))
    case entries =>
      intro _ _ _ _
      refine .some (.items (.cons (.fields ⟨?type, ?empty, ?item⟩) fun _ _ => .nil))
      case type => exact .some (.refl _)
      case empty => exact fun _ => .none
      case item =>
        intro _ _ _
        refine ⟨?name, ?weight, ?functions⟩
        case name => exact .some (.refl _)
        case weight => exact fun _ _ => .none
        case functions =>
          intro _ _ _ _
          refine .some (.items (.cons (functionAlike_of_tag rfl rfl (by decide)) fun _ _ =>
            .cons (functionAlike_of_tag rfl rfl (by decide)) ?_))
          intro a ha
          cases decodeFunction_eq_ok_iff.2 ha
  exact ⟨halike, (toTable_eq_of_alike halike "BOOK").symm.trans rfl⟩

end LootTables
