import LootTables.Proofs.Table.Grammar

/-!
# The defects of documents

What is outside of the grammar is refused for its first defect, in the order in which a decoder looks
at the parts of a value. The relations here are the other half of the grammar: level by level they
relate a value to the defect for which it is refused, by naming the parts that come before and are
in order, and the part that is not. Each decoder is then characterised by the relation of its
level, up to `decodePools_eq_error_iff`.
-/

namespace LootTables

/-- The defect of a part, seen from the value that has this part. -/
def Defect.under (step : PathStep) (d : Defect) : Defect := { d with path := step :: d.path }

/-! ## What can be wrong -/

namespace Json

/-- The value of a field is not of the expected kind. -/
inductive KindDefect (name : Text) (expected : JsonKind) : Json → Defect → Prop
  | intro {v : Json} (h : v.kind ≠ expected) :
      KindDefect name expected v ⟨[], .wrongKind name expected v.kind⟩

/-- The value is no integer: not a number, or a double that stands for none. -/
inductive IntegerDefect : Json → Defect → Prop
  | notNumber {v : Json} (h : ∀ n, v ≠ .number n) : IntegerDefect v ⟨[], .notInteger v.kind⟩
  | notIntegral {x : Double} (h : ∀ n, ¬ IsInteger (.number (.double x)) n) :
      IntegerDefect (.number (.double x)) ⟨[], .notIntegral x⟩

/-- The value of a bound is no number, or one that no single is near enough to. -/
inductive BoundDefect (name : Text) : Json → Defect → Prop
  | notNumber {v : Json} (h : ∀ n, v ≠ .number n) : BoundDefect name v ⟨[], .notNumber name v.kind⟩
  | notFinite {x : Double} (h : ∀ y, x ≠ .finite y) :
      BoundDefect name (.number (.double x)) ⟨[], .outOfRange name (.notFinite x)⟩
  | doublePastSingle {x : Binary binary64} (h : x.narrow? = none) :
      BoundDefect name (.number (.double (.finite x)))
        ⟨[], .outOfRange name (.pastSingle (.finite x))⟩
  | integerPastSingle {n : Int} {x : Binary binary64} (near : Binary.ofInt? n = some x)
      (h : x.narrow? = none) :
      BoundDefect name (.number (.integer n)) ⟨[], .outOfRange name (.pastSingle (.finite x))⟩
  | integerPastDouble {n : Int} (h : Binary.ofInt? n = none) :
      BoundDefect name (.number (.integer n)) ⟨[], .outOfRange name .integerPastDouble⟩

/-- The value of the field `name` has a defect. -/
inductive InField (fields : Fields) (name : Text) (D : Json → Defect → Prop) : Defect → Prop
  | intro {v : Json} {d : Defect} (has : fields.Has name v) (h : D v d) :
      InField fields name D (d.under (.field name))

/-- The field `name` is missing, or its value has a defect. -/
inductive FieldDefect (fields : Fields) (name : Text) (D : Json → Defect → Prop) : Defect → Prop
  | missing (h : fields.Lacks name) : FieldDefect fields name D ⟨[], .missing name⟩
  | inside {d : Defect} (h : InField fields name D d) : FieldDefect fields name D d

/-- An item has a defect, and those before it have none. -/
inductive ItemsDefect {α : Type} (P : Json → α → Prop) (D : Json → Defect → Prop) :
    List Json → Defect → Prop
  | intro {before after : List Json} {as : List α} {v : Json} {d : Defect}
      (hbefore : List.Forall₂ P before as) (h : D v d) :
      ItemsDefect P D (before ++ v :: after) (d.under (.item before.length))

/-- The value of a field is no array, or one of its items has a defect. -/
inductive ArrayDefect {α : Type} (name : Text) (P : Json → α → Prop) (D : Json → Defect → Prop) :
    Json → Defect → Prop
  | kind {v : Json} {d : Defect} (h : KindDefect name .array v d) : ArrayDefect name P D v d
  | items {items : List Json} {d : Defect} (h : ItemsDefect P D items d) :
      ArrayDefect name P D (.array items) d

/-- The lower bound has a defect, or it has none and the upper one has. -/
inductive RangeDefect (fields : Fields) : Defect → Prop
  | min {d : Defect} (h : FieldDefect fields "min" (BoundDefect "min") d) : RangeDefect fields d
  | max {low : Json} {min : Binary binary64} {d : Defect} (hasMin : fields.Has "min" low)
      (hmin : low.IsBound min) (h : FieldDefect fields "max" (BoundDefect "max") d) :
      RangeDefect fields d

/-- Defects of a number of rolls. -/
inductive RollDefect : Json → Defect → Prop
  | constant {v : Json} {d : Defect} (other : v.kind ≠ .object) (h : IntegerDefect v d) :
      RollDefect v d
  | uniform {fields : Fields} {d : Defect} (h : RangeDefect fields d) :
      RollDefect (.object fields) d

/-- Defects of a count. A distribution that is not known is unsupported. -/
inductive CountDefect : Json → Defect → Prop
  | constant {v : Json} {d : Defect} (other : v.kind ≠ .object) (h : IntegerDefect v d) :
      CountDefect v d
  | type {fields : Fields} {d : Defect}
      (h : FieldDefect fields "type" (KindDefect "type" .string) d) : CountDefect (.object fields) d
  | unsupported {fields : Fields} {type : Text} (hasType : fields.Has "type" (.string type))
      (other : type ≠ "minecraft:uniform") :
      CountDefect (.object fields) ⟨[], .unsupported ("minecraft:set_count (" ++ type ++ ")")⟩
  | uniform {fields : Fields} {d : Defect} (hasType : fields.Has "type" (.string "minecraft:uniform"))
      (h : RangeDefect fields d) : CountDefect (.object fields) d

/-- Defects of a function. A tag that is not known is unsupported. -/
inductive FunctionDefect : Json → Defect → Prop
  | notObject {v : Json} (h : v.kind ≠ .object) : FunctionDefect v ⟨[], .notObject v.kind⟩
  | tag {fields : Fields} {d : Defect}
      (h : FieldDefect fields "function" (KindDefect "function" .string) d) :
      FunctionDefect (.object fields) d
  | count {fields : Fields} {d : Defect}
      (hasTag : fields.Has "function" (.string "minecraft:set_count"))
      (h : FieldDefect fields "count" CountDefect d) : FunctionDefect (.object fields) d
  | unsupported {fields : Fields} {t : Text} (hasTag : fields.Has "function" (.string t))
      (noCount : t ≠ "minecraft:set_count") (noMarker : ∀ m : Marker, t ≠ LootTables.tag m.name) :
      FunctionDefect (.object fields) ⟨[], .unsupported t⟩

/-- Defects of an entry, an item being looked at in the order of name, weight and functions. -/
inductive EntryDefect : Json → Defect → Prop
  | notObject {v : Json} (h : v.kind ≠ .object) : EntryDefect v ⟨[], .notObject v.kind⟩
  | type {fields : Fields} {d : Defect}
      (h : FieldDefect fields "type" (KindDefect "type" .string) d) : EntryDefect (.object fields) d
  | emptyWeight {fields : Fields} {d : Defect}
      (hasType : fields.Has "type" (.string "minecraft:empty"))
      (h : FieldDefect fields "weight" IntegerDefect d) : EntryDefect (.object fields) d
  | name {fields : Fields} {type : Text} {d : Defect} (hasType : fields.Has "type" (.string type))
      (other : type ≠ "minecraft:empty") (h : FieldDefect fields "name" (KindDefect "name" .string) d) :
      EntryDefect (.object fields) d
  | weight {fields : Fields} {type name : Text} {d : Defect}
      (hasType : fields.Has "type" (.string type)) (other : type ≠ "minecraft:empty")
      (hasName : fields.Has "name" (.string name)) (h : InField fields "weight" IntegerDefect d) :
      EntryDefect (.object fields) d
  | functions {fields : Fields} {type name : Text} {weight : Int} {d : Defect}
      (hasType : fields.Has "type" (.string type)) (other : type ≠ "minecraft:empty")
      (hasName : fields.Has "name" (.string name)) (hweight : IsWeight fields weight)
      (h : InField fields "functions" (ArrayDefect "functions" IsFunction FunctionDefect) d) :
      EntryDefect (.object fields) d

/-- Defects of a pool: those of its rolls come first. -/
inductive PoolDefect : Json → Defect → Prop
  | notObject {v : Json} (h : v.kind ≠ .object) : PoolDefect v ⟨[], .notObject v.kind⟩
  | rolls {fields : Fields} {d : Defect} (h : FieldDefect fields "rolls" RollDefect d) :
      PoolDefect (.object fields) d
  | entries {fields : Fields} {v : Json} {rolls : Roll} {d : Defect} (hasRolls : fields.Has "rolls" v)
      (hrolls : v.IsRoll rolls)
      (h : FieldDefect fields "entries" (ArrayDefect "entries" IsEntry EntryDefect) d) :
      PoolDefect (.object fields) d
  | noEntries {fields : Fields} {v : Json} {rolls : Roll} (hasRolls : fields.Has "rolls" v)
      (hrolls : v.IsRoll rolls) (hasEntries : fields.Has "entries" (.array [])) :
      PoolDefect (.object fields) ⟨[.field "entries"], .noEntries⟩

/-- Defects of a whole document. -/
inductive DocumentDefect : Json → Defect → Prop
  | notObject {v : Json} (h : v.kind ≠ .object) : DocumentDefect v ⟨[], .notObject v.kind⟩
  | pools {fields : Fields} {d : Defect}
      (h : FieldDefect fields "pools" (ArrayDefect "pools" IsPool PoolDefect) d) :
      DocumentDefect (.object fields) d

end Json

/-! ## Fields -/

@[simp] theorem within_eq_error_iff {α : Type} {step : PathStep} {r : Except Defect α} {d : Defect} :
    within step r = .error d ↔ ∃ e, r = .error e ∧ d = e.under step := by
  unfold within
  rw [mapError_eq_error_iff]
  exact exists_congr fun e => and_congr_right fun _ => eq_comm

@[simp] theorem defect_eq_error_iff {α : Type} {cause : Cause} {d : Defect} :
    (defect cause : Except Defect α) = .error d ↔ d = ⟨[], cause⟩ := by
  unfold defect
  rw [Except.error.injEq]
  exact eq_comm

theorem kind_ne_object_iff {v : Json} : v.kind ≠ .object ↔ ∀ fields, v ≠ .object fields := by
  cases v with
  | number n => cases n <;> simp [Json.kind]
  | _ => simp [Json.kind]

theorem fields_eq_error_iff {v : Json} {d : Defect} :
    v.fields = .error d ↔ v.kind ≠ .object ∧ d = ⟨[], .notObject v.kind⟩ := by
  unfold Json.fields
  split
  · simp [Json.kind]
  · next other => simp [kind_ne_object_iff.2 other]

/-- What is done with the fields of a value fails if there are none, or if it fails for them. -/
theorem fields_bind_eq_error_iff {α : Type} {v : Json} {body : Fields → Except Defect α} {d : Defect} :
    v.fields >>= body = .error d ↔ (v.kind ≠ .object ∧ d = ⟨[], .notObject v.kind⟩) ∨
      ∃ fields, v = .object fields ∧ body fields = .error d := by
  simp only [bind_eq_error_iff, fields_eq_error_iff, fields_eq_ok_iff]

theorem kindDefect_iff {name : Text} {expected : JsonKind} {v : Json} {d : Defect} :
    Json.KindDefect name expected v d ↔ v.kind ≠ expected ∧ d = ⟨[], .wrongKind name expected v.kind⟩ := by
  constructor
  · rintro ⟨h⟩
    exact ⟨h, rfl⟩
  · rintro ⟨h, rfl⟩
    exact .intro h

theorem inField_iff {fields : Fields} {name : Text} {D : Json → Defect → Prop} {d : Defect} :
    Json.InField fields name D d ↔
      ∃ v, fields.Has name v ∧ ∃ e, D v e ∧ d = e.under (.field name) := by
  constructor
  · rintro ⟨has, h⟩
    exact ⟨_, has, _, h, rfl⟩
  · rintro ⟨v, has, e, h, rfl⟩
    exact .intro has h

namespace Fields

open Json (InField FieldDefect KindDefect ArrayDefect ItemsDefect IntegerDefect BoundDefect)

variable {fields : Fields} {name : Text} {d : Defect}

theorem required_eq_error_iff :
    fields.required name = .error d ↔ fields.Lacks name ∧ d = ⟨[], .missing name⟩ := by
  unfold required Lacks
  cases fields.lookup name <;> simp

/-- What is done with the value of a required field fails for a defect of the field, if it fails for
the defects of the value. -/
theorem required_bind_eq_error_iff {α : Type} {body : Json → Except Defect α}
    {D : Json → Defect → Prop}
    (hbody : ∀ v d, body v = .error d ↔ ∃ e, D v e ∧ d = e.under (.field name)) :
    fields.required name >>= body = .error d ↔ FieldDefect fields name D d := by
  simp only [bind_eq_error_iff, required_eq_error_iff, required_eq_ok_iff, hbody]
  constructor
  · rintro (⟨hlacks, rfl⟩ | h)
    · exact .missing hlacks
    · exact .inside (inField_iff.2 h)
  · rintro (hlacks | h)
    · exact .inl ⟨hlacks, rfl⟩
    · exact .inr (inField_iff.1 h)

theorem requiredString_eq_error_iff :
    fields.requiredString name = .error d ↔ FieldDefect fields name (KindDefect name .string) d := by
  refine required_bind_eq_error_iff fun v d => ?_
  simp only [kindDefect_iff]
  cases v with
  | number n => cases n <;> simp [Json.kind]
  | _ => simp [Json.kind, pure, Except.pure]

theorem requiredString_bind_eq_error_iff {α : Type} {body : Text → Except Defect α} :
    fields.requiredString name >>= body = .error d ↔
      FieldDefect fields name (KindDefect name .string) d ∨
        ∃ s, fields.Has name (.string s) ∧ body s = .error d := by
  simp only [bind_eq_error_iff, requiredString_eq_error_iff, requiredString_eq_ok_iff]

theorem asArray_eq_error_iff {v : Json} :
    asArray name v = .error d ↔ ∃ e, KindDefect name .array v e ∧ d = e.under (.field name) := by
  simp only [kindDefect_iff]
  cases v with
  | number n => cases n <;> simp [asArray, Json.kind]
  | _ => simp [asArray, Json.kind]

theorem requiredArray_eq_error_iff :
    fields.requiredArray name = .error d ↔ FieldDefect fields name (KindDefect name .array) d :=
  required_bind_eq_error_iff fun _ _ => asArray_eq_error_iff

theorem optionalArray_eq_error_iff :
    fields.optionalArray name = .error d ↔ InField fields name (KindDefect name .array) d := by
  unfold optionalArray
  rw [inField_iff]
  unfold Has
  cases h : fields.lookup name with
  | some v => simp [asArray_eq_error_iff]
  | none => simp

end Fields

/-! ## Numbers -/

theorem toInteger_double (x : Double) :
    (∃ n, (Json.number (.double x)).toInteger = .ok n) ∨
      (Json.number (.double x)).toInteger = .error ⟨[], .notIntegral x⟩ := by
  unfold Json.toInteger
  cases x with
  | finite y =>
    cases hy : y.toInt? with
    | some n => exact .inl ⟨n, by simp [hy]⟩
    | none => exact .inr (by simp [hy])
  -- The other doubles stand for no number at all.
  | _ => exact .inr rfl

theorem toInteger_eq_error_iff {v : Json} {d : Defect} :
    v.toInteger = .error d ↔ v.IntegerDefect d := by
  constructor
  · intro h
    by_cases hnumber : ∃ n, v = .number n
    · obtain ⟨n, rfl⟩ := hnumber
      cases n with
      | integer n => cases h
      | double x =>
        rcases toInteger_double x with ⟨n, hn⟩ | hx
        · cases h.symm.trans hn
        · cases h.symm.trans hx
          exact .notIntegral fun n hn => by cases hx.symm.trans (toInteger_eq_ok_iff.2 hn)
    · have hd : v.toInteger = .error ⟨[], .notInteger v.kind⟩ := by
        cases v <;> simp_all [Json.toInteger]
      cases h.symm.trans hd
      exact .notNumber fun n hn => hnumber ⟨n, hn⟩
  · intro h
    cases h with
    | notNumber h =>
      cases v with
      | number n => exact absurd rfl (h n)
      | _ => rfl
    | @notIntegral x h =>
      rcases toInteger_double x with ⟨n, hn⟩ | hx
      · exact absurd (toInteger_eq_ok_iff.1 hn) (h n)
      · exact hx

theorem asBound_eq_error_iff {name : Text} {v : Json} {d : Defect} :
    Fields.asBound name v = .error d ↔ v.BoundDefect name d := by
  constructor
  · intro h
    unfold Fields.asBound at h
    split at h
    · next n =>
      cases n with
      | double x =>
        simp only [Number.toDouble] at h
        split at h
        · next e he =>
          rw [defect_eq_error_iff.1 h]
          rcases toSingle_eq_error_iff.1 he with ⟨hinfinite, rfl⟩ | ⟨y, rfl, hy, rfl⟩
          · exact .notFinite hinfinite
          · exact .doublePastSingle hy
        · cases h
      | integer n =>
        cases hn : Binary.ofInt? n with
        | none =>
          simp only [Number.toDouble, hn] at h
          rw [defect_eq_error_iff.1 h]
          exact .integerPastDouble hn
        | some x =>
          simp only [Number.toDouble, hn] at h
          split at h
          · next e he =>
            rw [defect_eq_error_iff.1 h]
            rcases toSingle_eq_error_iff.1 he with ⟨hinfinite, -⟩ | ⟨y, hy, hsingle, rfl⟩
            · exact absurd rfl (hinfinite x)
            · cases hy
              exact .integerPastSingle hn hsingle
          · cases h
    · next other =>
      rw [defect_eq_error_iff.1 h]
      exact .notNumber other
  · intro h
    cases h with
    | notNumber h =>
      cases v with
      | number n => exact absurd rfl (h n)
      | _ => rfl
    | notFinite h =>
      have hx := toSingle_eq_error_iff.2 (.inl ⟨h, rfl⟩)
      simp [Fields.asBound, Number.toDouble, hx]
    | doublePastSingle h => simp [Fields.asBound, Number.toDouble, Double.toSingle, h]
    | integerPastSingle near h => simp [Fields.asBound, Number.toDouble, Double.toSingle, near, h]
    | integerPastDouble h => simp [Fields.asBound, Number.toDouble, h]

namespace Fields

open Json (InField FieldDefect IntegerDefect BoundDefect)

variable {fields : Fields} {name : Text} {d : Defect}

theorem requiredInteger_eq_error_iff :
    fields.requiredInteger name = .error d ↔ FieldDefect fields name IntegerDefect d := by
  refine required_bind_eq_error_iff fun v d => ?_
  simp only [within_eq_error_iff, toInteger_eq_error_iff]

theorem optionalInteger_eq_error_iff :
    fields.optionalInteger name = .error d ↔ InField fields name IntegerDefect d := by
  unfold optionalInteger
  rw [inField_iff]
  unfold Has
  cases h : fields.lookup name with
  | some v => simp [toInteger_eq_error_iff]
  | none => simp

theorem bound_eq_error_iff :
    fields.bound name = .error d ↔ FieldDefect fields name (BoundDefect name) d := by
  refine required_bind_eq_error_iff fun v d => ?_
  simp only [within_eq_error_iff, asBound_eq_error_iff]

end Fields

/-! ## The levels of a document -/

theorem decodeItems_eq_error_iff_from {α : Type} {decode : Json → Except Defect α}
    {P : Json → α → Prop} {D : Json → Defect → Prop} (hok : ∀ {v a}, decode v = .ok a ↔ P v a)
    (herror : ∀ {v d}, decode v = .error d ↔ D v d) {index : Nat} {items : List Json} {d : Defect} :
    decodeItems decode index items = .error d ↔
      ∃ before v after as e, items = before ++ v :: after ∧ List.Forall₂ P before as ∧ D v e ∧
        d = e.under (.item (index + before.length)) := by
  -- The items that the recursion has passed are those before the one with a defect.
  induction items generalizing index with
  | nil => simp [decodeItems]
  | cons item items ih =>
    rw [decodeItems, bind_eq_error_iff]
    constructor
    · rintro (h | ⟨a, ha, h⟩)
      · obtain ⟨e, he, rfl⟩ := within_eq_error_iff.1 h
        exact ⟨[], item, items, [], e, rfl, .nil, herror.1 he, rfl⟩
      · have hP := hok.1 (within_eq_ok_iff.1 ha)
        rcases bind_eq_error_iff.1 h with h | ⟨rest, -, h⟩
        · obtain ⟨before, v, after, as, e, rfl, hbefore, he, rfl⟩ := ih.1 h
          refine ⟨item :: before, v, after, a :: as, e, rfl, .cons hP hbefore, he, ?_⟩
          rw [List.length_cons, Nat.add_right_comm, Nat.add_assoc]
        · cases h
    · rintro ⟨before, v, after, as, e, hitems, hbefore, he, rfl⟩
      cases hbefore with
      | nil =>
        cases hitems
        exact .inl (within_eq_error_iff.2 ⟨e, herror.2 he, rfl⟩)
      | @cons u a before as hP hbefore =>
        cases hitems
        refine .inr ⟨a, within_eq_ok_iff.2 (hok.2 hP), bind_eq_error_iff.2 (.inl (ih.2 ?_))⟩
        refine ⟨before, v, after, as, e, rfl, hbefore, he, ?_⟩
        rw [List.length_cons, Nat.add_right_comm, Nat.add_assoc]

theorem decodeItems_eq_error_iff {α : Type} {decode : Json → Except Defect α} {P : Json → α → Prop}
    {D : Json → Defect → Prop} (hok : ∀ {v a}, decode v = .ok a ↔ P v a)
    (herror : ∀ {v d}, decode v = .error d ↔ D v d) {items : List Json} {d : Defect} :
    decodeItems decode 0 items = .error d ↔ Json.ItemsDefect P D items d := by
  rw [decodeItems_eq_error_iff_from hok herror]
  constructor
  · rintro ⟨before, v, after, as, e, rfl, hbefore, he, rfl⟩
    rw [Nat.zero_add]
    exact .intro hbefore he
  · rintro ⟨hbefore, he⟩
    exact ⟨_, _, _, _, _, rfl, hbefore, he, by rw [Nat.zero_add]⟩

/-- The value of an array field has a defect if it is no array, or if its items have one. -/
theorem inField_array_iff {α : Type} {fields : Fields} {name : Text} {P : Json → α → Prop}
    {D : Json → Defect → Prop} {d : Defect} :
    Json.InField fields name (Json.ArrayDefect name P D) d ↔
      Json.InField fields name (Json.KindDefect name .array) d ∨
        ∃ items, fields.Has name (.array items) ∧
          ∃ e, Json.ItemsDefect P D items e ∧ d = e.under (.field name) := by
  constructor
  · rintro ⟨has, h | h⟩
    · exact .inl (.intro has h)
    · exact .inr ⟨_, has, _, h, rfl⟩
  · rintro (⟨has, h⟩ | ⟨items, has, e, h, rfl⟩)
    · exact .intro has (.kind h)
    · exact .intro has (.items h)

theorem fieldDefect_array_iff {α : Type} {fields : Fields} {name : Text} {P : Json → α → Prop}
    {D : Json → Defect → Prop} {d : Defect} :
    Json.FieldDefect fields name (Json.ArrayDefect name P D) d ↔
      Json.FieldDefect fields name (Json.KindDefect name .array) d ∨
        ∃ items, fields.Has name (.array items) ∧
          ∃ e, Json.ItemsDefect P D items e ∧ d = e.under (.field name) := by
  constructor
  · rintro (h | h)
    · exact .inl (.missing h)
    · exact (inField_array_iff.1 h).imp_left .inside
  · rintro ((h | h) | h)
    · exact .missing h
    · exact .inside (inField_array_iff.2 (.inl h))
    · exact .inside (inField_array_iff.2 (.inr h))

theorem rangeDefect_iff {α : Type} {fields : Fields} {make : Number → Number → α} {d : Defect} :
    (do
      let min ← fields.bound "min"
      let max ← fields.bound "max"
      return make min max) = .error d ↔ Json.RangeDefect fields d := by
  simp only [bind_eq_error_iff, Fields.bound_eq_error_iff, Fields.bound_eq_ok_iff]
  constructor
  · rintro (h | ⟨min, ⟨low, has, x, -, hx⟩, h | ⟨max, -, h⟩⟩)
    · exact .min h
    · exact .max has hx h
    · cases h
  · rintro (h | ⟨has, hx, h⟩)
    · exact .inl h
    · exact .inr ⟨_, ⟨_, has, _, rfl, hx⟩, .inl h⟩

theorem decodeRoll_eq_error_iff {v : Json} {d : Defect} :
    decodeRoll v = .error d ↔ v.RollDefect d := by
  constructor
  · intro h
    unfold decodeRoll at h
    split at h
    · exact .uniform (rangeDefect_iff.1 h)
    · next other =>
      refine .constant (kind_ne_object_iff.2 other) (toInteger_eq_error_iff.1 ?_)
      rcases bind_eq_error_iff.1 h with h | ⟨n, -, h⟩
      · exact h
      · cases h
  · intro h
    cases h with
    | uniform h => exact rangeDefect_iff.2 h
    | constant other h =>
      have hinteger := toInteger_eq_error_iff.2 h
      cases v with
      | object fields => exact absurd rfl other
      | _ => exact bind_eq_error_iff.2 (.inl hinteger)

theorem decodeCount_eq_error_iff {v : Json} {d : Defect} :
    decodeCount v = .error d ↔ v.CountDefect d := by
  constructor
  · intro h
    unfold decodeCount at h
    split at h
    · rcases Fields.requiredString_bind_eq_error_iff.1 h with htype | ⟨type, hasType, hbody⟩
      · exact .type htype
      · split at hbody
        · next huniform =>
          rw [huniform] at hasType
          exact .uniform hasType (rangeDefect_iff.1 hbody)
        · next other =>
          rw [defect_eq_error_iff.1 hbody]
          exact .unsupported hasType other
    · next other =>
      refine .constant (kind_ne_object_iff.2 other) (toInteger_eq_error_iff.1 ?_)
      rcases bind_eq_error_iff.1 h with h | ⟨n, -, h⟩
      · exact h
      · cases h
  · intro h
    cases h with
    | constant other h =>
      have hinteger := toInteger_eq_error_iff.2 h
      cases v with
      | object fields => exact absurd rfl other
      | _ => exact bind_eq_error_iff.2 (.inl hinteger)
    | type h => exact Fields.requiredString_bind_eq_error_iff.2 (.inl h)
    | unsupported hasType other =>
      refine Fields.requiredString_bind_eq_error_iff.2 (.inr ⟨_, hasType, ?_⟩)
      rw [if_neg fun h => other (h.trans (by decide))]
      rfl
    | uniform hasType h =>
      refine Fields.requiredString_bind_eq_error_iff.2 (.inr ⟨_, hasType, ?_⟩)
      rw [if_pos (by decide)]
      exact rangeDefect_iff.2 h

theorem decodeFunction_eq_error_iff {v : Json} {d : Defect} :
    decodeFunction v = .error d ↔ v.FunctionDefect d := by
  constructor
  · intro h
    rcases fields_bind_eq_error_iff.1 h with ⟨hkind, rfl⟩ | ⟨fields, rfl, hbody⟩
    · exact .notObject hkind
    · rcases Fields.requiredString_bind_eq_error_iff.1 hbody with ht | ⟨t, hasTag, hbody⟩
      · exact .tag ht
      · split at hbody
        · next hcount =>
          rw [hcount] at hasTag
          refine .count hasTag ((Fields.required_bind_eq_error_iff fun v d => ?_).1 hbody)
          simp only [within_eq_error_iff, decodeCount_eq_error_iff]
        · next noCount =>
          split at hbody
          · cases hbody
          · next hnone =>
            rw [defect_eq_error_iff.1 hbody]
            refine .unsupported hasTag noCount fun m hm => ?_
            cases hnone.symm.trans (ofTag?_eq_some_iff.2 hm)
  · intro h
    cases h with
    | notObject hkind => exact fields_bind_eq_error_iff.2 (.inl ⟨hkind, rfl⟩)
    | tag h =>
      exact fields_bind_eq_error_iff.2 (.inr ⟨_, rfl,
        Fields.requiredString_bind_eq_error_iff.2 (.inl h)⟩)
    | count hasTag h =>
      refine fields_bind_eq_error_iff.2 (.inr ⟨_, rfl,
        Fields.requiredString_bind_eq_error_iff.2 (.inr ⟨_, hasTag, ?_⟩)⟩)
      rw [if_pos (by decide)]
      refine (Fields.required_bind_eq_error_iff fun v d => ?_).2 h
      simp only [within_eq_error_iff, decodeCount_eq_error_iff]
    | @unsupported fields t hasTag noCount noMarker =>
      refine fields_bind_eq_error_iff.2 (.inr ⟨_, rfl,
        Fields.requiredString_bind_eq_error_iff.2 (.inr ⟨_, hasTag, ?_⟩)⟩)
      rw [if_neg fun h => noCount (h.trans (by decide))]
      cases hm : Marker.ofTag? t with
      | none => rfl
      | some m => exact absurd (ofTag?_eq_some_iff.1 hm) (noMarker m)

theorem functions_eq_error_iff {fields : Fields} {α : Type} {make : List LootFunction → α}
    {d : Defect} :
    (do
      let items ← fields.optionalArray "functions"
      let functions ← within (.field "functions") (decodeItems decodeFunction 0 items)
      return make functions) = .error d ↔
        Json.InField fields "functions"
          (Json.ArrayDefect "functions" Json.IsFunction Json.FunctionDefect) d := by
  have hitems : ∀ items d, decodeItems decodeFunction 0 items = .error d ↔
      Json.ItemsDefect Json.IsFunction Json.FunctionDefect items d := fun items d =>
    decodeItems_eq_error_iff decodeFunction_eq_ok_iff decodeFunction_eq_error_iff
  rw [inField_array_iff]
  simp only [bind_eq_error_iff, Fields.optionalArray_eq_error_iff, Fields.optionalArray_eq_ok_iff,
    within_eq_error_iff, hitems]
  constructor
  · rintro (h | ⟨items, ⟨-, rfl⟩ | has, h | ⟨functions, -, h⟩⟩)
    · exact .inl h
    · obtain ⟨e, he, -⟩ := h
      cases (hitems [] e).2 he
    · cases h
    · exact .inr ⟨items, has, h⟩
    · cases h
  · rintro (h | ⟨items, has, h⟩)
    · exact .inl h
    · exact .inr ⟨items, .inr has, .inl h⟩

theorem decodeEntry_eq_error_iff {v : Json} {d : Defect} :
    decodeEntry v = .error d ↔ v.EntryDefect d := by
  constructor
  · intro h
    rcases fields_bind_eq_error_iff.1 h with ⟨hkind, rfl⟩ | ⟨fields, rfl, hbody⟩
    · exact .notObject hkind
    · rcases Fields.requiredString_bind_eq_error_iff.1 hbody with ht | ⟨type, hasType, hbody⟩
      · exact .type ht
      · split at hbody
        · next hempty =>
          rw [hempty] at hasType
          rcases bind_eq_error_iff.1 hbody with hweight | ⟨weight, -, hbody⟩
          · exact .emptyWeight hasType (Fields.requiredInteger_eq_error_iff.1 hweight)
          · cases hbody
        · next other =>
          rcases Fields.requiredString_bind_eq_error_iff.1 hbody with hname | ⟨name, hasName, hbody⟩
          · exact .name hasType other hname
          · rcases bind_eq_error_iff.1 hbody with hweight | ⟨weight, hweight, hbody⟩
            · exact .weight hasType other hasName (Fields.optionalInteger_eq_error_iff.1 hweight)
            · exact .functions hasType other hasName (isWeight_iff.1 hweight)
                (functions_eq_error_iff.1 hbody)
  · intro h
    cases h with
    | notObject hkind => exact fields_bind_eq_error_iff.2 (.inl ⟨hkind, rfl⟩)
    | type h =>
      exact fields_bind_eq_error_iff.2 (.inr ⟨_, rfl,
        Fields.requiredString_bind_eq_error_iff.2 (.inl h)⟩)
    | emptyWeight hasType h =>
      refine fields_bind_eq_error_iff.2 (.inr ⟨_, rfl,
        Fields.requiredString_bind_eq_error_iff.2 (.inr ⟨_, hasType, ?_⟩)⟩)
      rw [if_pos (by decide)]
      exact bind_eq_error_iff.2 (.inl (Fields.requiredInteger_eq_error_iff.2 h))
    | name hasType other h =>
      refine fields_bind_eq_error_iff.2 (.inr ⟨_, rfl,
        Fields.requiredString_bind_eq_error_iff.2 (.inr ⟨_, hasType, ?_⟩)⟩)
      rw [if_neg fun h => other (h.trans (by decide))]
      exact Fields.requiredString_bind_eq_error_iff.2 (.inl h)
    | weight hasType other hasName h =>
      refine fields_bind_eq_error_iff.2 (.inr ⟨_, rfl,
        Fields.requiredString_bind_eq_error_iff.2 (.inr ⟨_, hasType, ?_⟩)⟩)
      rw [if_neg fun h => other (h.trans (by decide))]
      exact Fields.requiredString_bind_eq_error_iff.2 (.inr ⟨_, hasName,
        bind_eq_error_iff.2 (.inl (Fields.optionalInteger_eq_error_iff.2 h))⟩)
    | functions hasType other hasName hweight h =>
      refine fields_bind_eq_error_iff.2 (.inr ⟨_, rfl,
        Fields.requiredString_bind_eq_error_iff.2 (.inr ⟨_, hasType, ?_⟩)⟩)
      rw [if_neg fun h => other (h.trans (by decide))]
      exact Fields.requiredString_bind_eq_error_iff.2 (.inr ⟨_, hasName,
        bind_eq_error_iff.2 (.inr ⟨_, isWeight_iff.2 hweight, functions_eq_error_iff.2 h⟩)⟩)

theorem decodePool_eq_error_iff {v : Json} {d : Defect} :
    decodePool v = .error d ↔ v.PoolDefect d := by
  have hitems : ∀ items d, decodeItems decodeEntry 0 items = .error d ↔
      Json.ItemsDefect Json.IsEntry Json.EntryDefect items d := fun items d =>
    decodeItems_eq_error_iff decodeEntry_eq_ok_iff decodeEntry_eq_error_iff
  constructor
  · intro h
    rcases fields_bind_eq_error_iff.1 h with ⟨hkind, rfl⟩ | ⟨fields, rfl, hbody⟩
    · exact .notObject hkind
    · rcases bind_eq_error_iff.1 hbody with hv | ⟨v, hv, hbody⟩
      · obtain ⟨hlacks, rfl⟩ := Fields.required_eq_error_iff.1 hv
        exact .rolls (.missing hlacks)
      · have hasRolls := Fields.required_eq_ok_iff.1 hv
        rcases bind_eq_error_iff.1 hbody with hroll | ⟨rolls, hroll, hbody⟩
        · obtain ⟨e, he, rfl⟩ := within_eq_error_iff.1 hroll
          exact .rolls (.inside (.intro hasRolls (decodeRoll_eq_error_iff.1 he)))
        · have hrolls := decodeRoll_eq_ok_iff.1 (within_eq_ok_iff.1 hroll)
          rcases bind_eq_error_iff.1 hbody with harray | ⟨items, harray, hbody⟩
          · exact .entries hasRolls hrolls
              (fieldDefect_array_iff.2 (.inl (Fields.requiredArray_eq_error_iff.1 harray)))
          · have hasEntries := Fields.requiredArray_eq_ok_iff.1 harray
            split at hbody
            · next hempty =>
              rw [List.isEmpty_iff.1 hempty] at hasEntries
              obtain ⟨e, he, rfl⟩ := within_eq_error_iff.1 hbody
              rw [defect_eq_error_iff.1 he]
              exact .noEntries hasRolls hrolls hasEntries
            · rcases bind_eq_error_iff.1 hbody with hentries | ⟨entries, -, hbody⟩
              · obtain ⟨e, he, rfl⟩ := within_eq_error_iff.1 hentries
                exact .entries hasRolls hrolls
                  (fieldDefect_array_iff.2 (.inr ⟨items, hasEntries, e, (hitems items e).1 he, rfl⟩))
              · cases hbody
  · intro h
    cases h with
    | notObject hkind => exact fields_bind_eq_error_iff.2 (.inl ⟨hkind, rfl⟩)
    | rolls h =>
      refine fields_bind_eq_error_iff.2 (.inr ⟨_, rfl, ?_⟩)
      cases h with
      | missing hlacks =>
        exact bind_eq_error_iff.2 (.inl (Fields.required_eq_error_iff.2 ⟨hlacks, rfl⟩))
      | inside h =>
        obtain ⟨hasRolls, h⟩ := h
        exact bind_eq_error_iff.2 (.inr ⟨_, Fields.required_eq_ok_iff.2 hasRolls,
          bind_eq_error_iff.2 (.inl (within_eq_error_iff.2 ⟨_, decodeRoll_eq_error_iff.2 h, rfl⟩))⟩)
    | entries hasRolls hrolls h =>
      refine fields_bind_eq_error_iff.2 (.inr ⟨_, rfl, bind_eq_error_iff.2 (.inr ⟨_,
        Fields.required_eq_ok_iff.2 hasRolls, bind_eq_error_iff.2 (.inr ⟨_,
          within_eq_ok_iff.2 (decodeRoll_eq_ok_iff.2 hrolls), ?_⟩)⟩)⟩)
      rcases fieldDefect_array_iff.1 h with harray | ⟨items, hasEntries, e, he, rfl⟩
      · exact bind_eq_error_iff.2 (.inl (Fields.requiredArray_eq_error_iff.2 harray))
      · refine bind_eq_error_iff.2 (.inr ⟨_, Fields.requiredArray_eq_ok_iff.2 hasEntries, ?_⟩)
        -- A defect of an item means that there is an item.
        rw [if_neg]
        · exact bind_eq_error_iff.2 (.inl (within_eq_error_iff.2 ⟨e, (hitems items e).2 he, rfl⟩))
        · cases he
          simp
    | noEntries hasRolls hrolls hasEntries =>
      exact fields_bind_eq_error_iff.2 (.inr ⟨_, rfl, bind_eq_error_iff.2 (.inr ⟨_,
        Fields.required_eq_ok_iff.2 hasRolls, bind_eq_error_iff.2 (.inr ⟨_,
          within_eq_ok_iff.2 (decodeRoll_eq_ok_iff.2 hrolls), bind_eq_error_iff.2 (.inr ⟨_,
            Fields.requiredArray_eq_ok_iff.2 hasEntries, rfl⟩)⟩)⟩)⟩)

theorem decodePools_eq_error_iff {v : Json} {d : Defect} :
    decodePools v = .error d ↔ v.DocumentDefect d := by
  have hitems : ∀ items d, decodeItems decodePool 0 items = .error d ↔
      Json.ItemsDefect Json.IsPool Json.PoolDefect items d := fun items d =>
    decodeItems_eq_error_iff decodePool_eq_ok_iff decodePool_eq_error_iff
  unfold decodePools
  simp only [bind_eq_error_iff, fields_eq_error_iff, fields_eq_ok_iff,
    Fields.requiredArray_eq_error_iff, Fields.requiredArray_eq_ok_iff, within_eq_error_iff, hitems]
  constructor
  · rintro (⟨hkind, rfl⟩ | ⟨fields, rfl, h⟩)
    · exact .notObject hkind
    · exact .pools (fieldDefect_array_iff.2 h)
  · rintro (hkind | h)
    · exact .inl ⟨hkind, rfl⟩
    · exact .inr ⟨_, rfl, fieldDefect_array_iff.1 h⟩

/-! ## Documents -/

theorem toTable_eq_error_iff {v : Json} {name : Text} {e : DecodeError} :
    v.toTable name = .error e ↔ e.table = name ∧ v.DocumentDefect e.toDefect := by
  rw [← decodePools_eq_error_iff]
  unfold Json.toTable
  obtain ⟨d, table⟩ := e
  cases decodePools v <;> simp [eq_comm, and_comm]

/-- The documents that decode are exactly those of the grammar, each to the one model that the
grammar assigns to it. Every other value is refused in the name of the table, for its first
defect. -/
theorem toTable_accepts_grammar (v : Json) (name : Text) :
    (∀ t, v.toTable name = .ok t ↔ t.name = name ∧ v.IsDocument t.pools) ∧
      (∀ e, v.toTable name = .error e ↔ e.table = name ∧ v.DocumentDefect e.toDefect) ∧
      ((∃ t, v.toTable name = .ok t) ↔ ∃ pools, v.IsDocument pools) ∧
      ((∃ e, v.toTable name = .error e) ↔ ¬ ∃ pools, v.IsDocument pools) := by
  have accepted : (∃ t, v.toTable name = .ok t) ↔ ∃ pools, v.IsDocument pools := by
    constructor
    · rintro ⟨t, ht⟩
      exact ⟨t.pools, (toTable_eq_ok_iff.1 ht).2⟩
    · rintro ⟨pools, hpools⟩
      exact ⟨⟨name, pools⟩, toTable_eq_ok_iff.2 ⟨rfl, hpools⟩⟩
  refine ⟨fun t => toTable_eq_ok_iff, fun e => toTable_eq_error_iff, accepted, ?_⟩
  rw [← accepted]
  cases hv : v.toTable name with
  | ok t => simp
  | error e => simp

end LootTables
