import LootTables.Proofs.Table.Defects

/-!
# Arrays that are split

An array is decoded from its first item to its last, so what comes of it follows from what comes of two
parts into which it is split: the two lists one after the other, the defect of the first part whatever
is in the second, or the defect of the second part, with the items of the first counted in its path.
`Splits` is this law. It holds for the items themselves (`decodeItems_splits`) and is kept by all that a
decoder does around them, so that it holds of documents, pools and entries (`arrays_split`).
-/

namespace LootTables

/-! ### The law -/

/-- How the result of a whole follows from those of its two parts. Whether the second part has a defect
does not matter if the first part has one. -/
inductive Splits {ε α : Type} (Joined : α → α → α → Prop) (Moved : ε → ε → Prop) :
    (first second whole : Except ε α) → Prop
  | joined {a b c : α} (h : Joined a b c) : Splits Joined Moved (.ok a) (.ok b) (.ok c)
  | first (e : ε) (second : Except ε α) : Splits Joined Moved (.error e) second (.error e)
  | second (a : α) {e e' : ε} (h : Moved e e') : Splits Joined Moved (.ok a) (.error e) (.error e')

/-- The defects have the same cause and the same place, except that in the array at `place` the second
one lies `n` items further on. -/
def Defect.MovedAt (place : JsonPath) (n : Nat) (d d' : Defect) : Prop :=
  ∃ index rest, d.path = place ++ .item index :: rest ∧ d'.path = place ++ .item (n + index) :: rest ∧
    d'.cause = d.cause

/-- The same for the errors of one table. -/
def DecodeError.MovedAt (place : JsonPath) (n : Nat) (e e' : DecodeError) : Prop :=
  e.toDefect.MovedAt place n e'.toDefect ∧ e'.table = e.table

theorem Defect.MovedAt.under {place : JsonPath} {n : Nat} {d d' : Defect} (h : d.MovedAt place n d')
    (step : PathStep) : (d.under step).MovedAt (step :: place) n (d'.under step) := by
  obtain ⟨index, rest, hpath, hpath', hcause⟩ := h
  exact ⟨index, rest, congrArg (step :: ·) hpath, congrArg (step :: ·) hpath', hcause⟩

namespace Splits

section

variable {ε α β : Type} {Joined : α → α → α → Prop} {Moved : ε → ε → Prop}

/-- What is done before the parts are looked at is the same for all three. -/
theorem bind {r : Except ε β} {first second whole : β → Except ε α}
    (h : ∀ b, r = .ok b → Splits Joined Moved (first b) (second b) (whole b)) :
    Splits Joined Moved (r >>= first) (r >>= second) (r >>= whole) := by
  cases r with
  | ok b => exact h b rfl
  | error e => exact .first e (.error e)

/-- What is made of the values in the end keeps the law if it goes with joining. -/
theorem map {Joined' : β → β → β → Prop} {first second whole : Except ε α} {f : α → β}
    (h : Splits Joined Moved first second whole)
    (hf : ∀ a b c, Joined a b c → Joined' (f a) (f b) (f c)) :
    Splits Joined' Moved (first >>= fun a => pure (f a)) (second >>= fun a => pure (f a))
      (whole >>= fun a => pure (f a)) := by
  cases h with
  | joined h => exact .joined (hf _ _ _ h)
  | first e second => exact .first e _
  | second a h => exact .second (f a) h

end

variable {α : Type} {Joined : α → α → α → Prop} {place : JsonPath} {n : Nat}
  {first second whole : Except Defect α}

theorem within (h : Splits Joined (Defect.MovedAt place n) first second whole) (step : PathStep) :
    Splits Joined (Defect.MovedAt (step :: place) n) (LootTables.within step first)
      (LootTables.within step second) (LootTables.within step whole) := by
  cases h with
  | joined h => exact .joined h
  | first d second => exact .first (d.under step) _
  | second a h => exact .second a (h.under step)

end Splits

/-! ### Items -/

/-- The items of a list that is split are those of the two parts. -/
theorem decodeItems_splits {α : Type} (decode : Json → Except Defect α) (xs ys : List Json) :
    Splits (fun as bs cs => cs = as ++ bs) (Defect.MovedAt [] xs.length) (decodeItems decode 0 xs)
      (decodeItems decode 0 ys) (decodeItems decode 0 (xs ++ ys)) := by
  have hok : ∀ {zs : List Json} {as : List α}, decodeItems decode 0 zs = .ok as ↔
      List.Forall₂ (fun v a => decode v = .ok a) zs as := decodeItems_eq_ok_iff fun _ _ => Iff.rfl
  have herror : ∀ {zs : List Json} {d : Defect}, decodeItems decode 0 zs = .error d ↔
      Json.ItemsDefect (fun v a => decode v = .ok a) (fun v d => decode v = .error d) zs d :=
    decodeItems_eq_error_iff Iff.rfl Iff.rfl
  cases hxs : decodeItems decode 0 xs with
  | error d =>
    have hwhole : decodeItems decode 0 (xs ++ ys) = .error d := by
      obtain ⟨hbefore, hd⟩ := herror.1 hxs
      rw [herror, List.append_assoc, List.cons_append]
      exact .intro hbefore hd
    rw [hwhole]
    exact .first d _
  | ok as =>
    cases hys : decodeItems decode 0 ys with
    | ok bs =>
      have hwhole : decodeItems decode 0 (xs ++ ys) = .ok (as ++ bs) :=
        hok.2 (List.rel_append (hok.1 hxs) (hok.1 hys))
      rw [hwhole]
      exact .joined rfl
    | error d =>
      -- The items of the first part are in order, so they belong to those before the defect.
      obtain @⟨before, after, bs, v, e, hbefore, he⟩ := herror.1 hys
      have hwhole : decodeItems decode 0 (xs ++ (before ++ v :: after)) =
          .error (e.under (.item (xs ++ before).length)) := by
        rw [herror, ← List.append_assoc]
        exact .intro (List.rel_append (hok.1 hxs) hbefore) he
      rw [hwhole, List.length_append]
      exact .second as ⟨before.length, e.path, rfl, rfl, rfl⟩

/-! ### Objects with an array -/

namespace Fields

/-- The object with these fields, except that `name` is an array of these items. -/
def withArray (fields : Fields) (name : Text) (items : List Json) : Json :=
  .object (Assoc.put name (.array items) fields)

variable {fields : Fields} {name other : Text} {items : List Json} {v : Json}

theorem required_put : required (Assoc.put name v fields) name = .ok v := by
  rw [required_eq_ok_iff, Assoc.lookup_put, if_pos rfl]

theorem required_put_of_ne (h : name ≠ other) :
    required (Assoc.put other v fields) name = fields.required name := by
  unfold required
  rw [Assoc.lookup_put, if_neg h]

theorem requiredString_put_of_ne (h : name ≠ other) :
    requiredString (Assoc.put other v fields) name = fields.requiredString name := by
  unfold requiredString
  rw [required_put_of_ne h]

theorem optionalInteger_put_of_ne (h : name ≠ other) :
    optionalInteger (Assoc.put other v fields) name = fields.optionalInteger name := by
  unfold optionalInteger
  rw [Assoc.lookup_put, if_neg h]

theorem requiredArray_put : requiredArray (Assoc.put name (.array items) fields) name = .ok items := by
  unfold requiredArray
  rw [required_put]
  rfl

theorem optionalArray_put : optionalArray (Assoc.put name (.array items) fields) name = .ok items := by
  unfold optionalArray
  rw [Assoc.lookup_put, if_pos rfl]
  rfl

end Fields

/-! ### Documents, pools and entries -/

section

variable (fields : Fields)

/-- A table with the pools of two others. -/
def JoinedTables (first second whole : LootTable) : Prop :=
  whole = ⟨first.name, first.pools ++ second.pools⟩

theorem toTable_splits (name : Text) (ps qs : List Json) :
    Splits JoinedTables (DecodeError.MovedAt [.field "pools"] ps.length)
      ((fields.withArray "pools" ps).toTable name) ((fields.withArray "pools" qs).toTable name)
      ((fields.withArray "pools" (ps ++ qs)).toTable name) := by
  have hpools : ∀ items, decodePools (fields.withArray "pools" items) =
      within (.field "pools") (decodeItems decodePool 0 items) := by
    intro items
    simp only [decodePools, Fields.withArray, Json.fields, ok_bind, Fields.requiredArray_put]
  have hsplits := (decodeItems_splits decodePool ps qs).within (.field "pools")
  rw [← hpools, ← hpools, ← hpools] at hsplits
  unfold Json.toTable
  generalize decodePools (fields.withArray "pools" ps) = first at hsplits
  generalize decodePools (fields.withArray "pools" qs) = second at hsplits
  generalize decodePools (fields.withArray "pools" (ps ++ qs)) = whole at hsplits
  cases hsplits with
  | joined h => exact .joined (congrArg (LootTable.mk name) h)
  | first d second => exact .first _ _
  | second as h => exact .second _ ⟨h, rfl⟩

/-- A pool with the rolls of two others and the entries of both. -/
def JoinedPools (first second whole : LootPool) : Prop :=
  second.rolls = first.rolls ∧ whole = ⟨first.rolls, first.entries ++ second.entries⟩

theorem decodePool_splits {es es' : List Json} (hes : es ≠ []) (hes' : es' ≠ []) :
    Splits JoinedPools (Defect.MovedAt [.field "entries"] es.length)
      (decodePool (fields.withArray "entries" es)) (decodePool (fields.withArray "entries" es'))
      (decodePool (fields.withArray "entries" (es ++ es'))) := by
  have hempty : ∀ items : List Json, items ≠ [] → items.isEmpty = false := fun items h =>
    Bool.eq_false_iff.2 fun hempty => h (List.isEmpty_iff.1 hempty)
  have hwhole := List.append_ne_nil_of_left_ne_nil hes es'
  simp (disch := decide) only [decodePool, Fields.withArray, Json.fields, ok_bind,
    Fields.requiredArray_put, Fields.required_put_of_ne, hempty _ hes, hempty _ hes', hempty _ hwhole,
    Bool.false_eq_true, if_false]
  apply Splits.bind
  intro rolls _
  apply Splits.bind
  intro roll _
  refine ((decodeItems_splits decodeEntry es es').within (.field "entries")).map fun as bs cs h => ?_
  exact ⟨rfl, congrArg (LootPool.mk roll) h⟩

/-- An item with the functions of two others. Whether it is renamed depends on the functions of both. -/
inductive JoinedEntries : Entry → Entry → Entry → Prop
  | intro {name first second : Text} {weight : Int} {functions functions' : List LootFunction}
      (hasName : fields.Has "name" (.string name)) :
      JoinedEntries (.item first weight functions) (.item second weight functions')
        (.item
          (if name = "minecraft:book" ∧ (LootFunction.marker .enchantRandomly ∈ functions ∨
              LootFunction.marker .enchantRandomly ∈ functions') then "minecraft:enchanted_book"
            else name)
          weight (functions ++ functions'))

theorem givenItem_append (name : Text) (functions functions' : List LootFunction) :
    givenItem name (functions ++ functions') =
      if name = "minecraft:book" ∧ (LootFunction.marker .enchantRandomly ∈ functions ∨
          LootFunction.marker .enchantRandomly ∈ functions') then ("minecraft:enchanted_book" : Text)
      else name := by
  unfold givenItem
  exact if_congr (and_congr_right fun _ => List.mem_append) rfl rfl

theorem decodeEntry_splits (hitem : ¬ fields.Has "type" (.string "minecraft:empty"))
    (gs gs' : List Json) :
    Splits (JoinedEntries fields) (Defect.MovedAt [.field "functions"] gs.length)
      (decodeEntry (fields.withArray "functions" gs)) (decodeEntry (fields.withArray "functions" gs'))
      (decodeEntry (fields.withArray "functions" (gs ++ gs'))) := by
  simp (disch := decide) only [decodeEntry, Fields.withArray, Json.fields, ok_bind,
    Fields.requiredString_put_of_ne, Fields.optionalInteger_put_of_ne, Fields.optionalArray_put]
  apply Splits.bind
  intro type htype
  have hother : type ≠ tag "empty" := by
    rintro rfl
    exact hitem (Fields.requiredString_eq_ok_iff.1 htype)
  rw [if_neg hother, if_neg hother, if_neg hother]
  apply Splits.bind
  intro name hname
  apply Splits.bind
  intro weight _
  refine ((decodeItems_splits decodeFunction gs gs').within (.field "functions")).map fun as bs cs h => ?_
  rw [h, givenItem_append]
  exact .intro (Fields.requiredString_eq_ok_iff.1 hname)

/-- The law of splitting for the pools of a document, for the entries of a pool, of which neither part
may be empty, and for the functions of an item. Besides the array the object has any fields. -/
theorem arrays_split :
    (∀ (name : Text) (ps qs : List Json),
        Splits JoinedTables (DecodeError.MovedAt [.field "pools"] ps.length)
          ((fields.withArray "pools" ps).toTable name) ((fields.withArray "pools" qs).toTable name)
          ((fields.withArray "pools" (ps ++ qs)).toTable name)) ∧
      (∀ es es' : List Json, es ≠ [] → es' ≠ [] →
        Splits JoinedPools (Defect.MovedAt [.field "entries"] es.length)
          (decodePool (fields.withArray "entries" es)) (decodePool (fields.withArray "entries" es'))
          (decodePool (fields.withArray "entries" (es ++ es')))) ∧
      (¬ fields.Has "type" (.string "minecraft:empty") → ∀ gs gs' : List Json,
        Splits (JoinedEntries fields) (Defect.MovedAt [.field "functions"] gs.length)
          (decodeEntry (fields.withArray "functions" gs)) (decodeEntry (fields.withArray "functions" gs'))
          (decodeEntry (fields.withArray "functions" (gs ++ gs')))) := by
  refine ⟨toTable_splits fields, ?_, ?_⟩
  · intro es es' hes hes'
    exact decodePool_splits fields hes hes'
  · intro hitem
    exact decodeEntry_splits fields hitem

end

/-- A book, but for its functions. -/
def bookFields : Fields := [("type", .string "minecraft:item"), ("name", .string "minecraft:book")]

/-- A function that is named only. -/
def markerObject (m : Marker) : Json := .object [("function", .string (tag m.name))]

/-- A pool that is drawn from once, but for its entries. -/
def onceFields : Fields := [("rolls", .number (.integer 1))]

/-- A book is renamed for the second of its functions, and a defect in the second entry of a pool is
found where it is. -/
theorem bookFields_arrays_split :
    (Splits (JoinedEntries bookFields) (Defect.MovedAt [.field "functions"] 1)
        (.ok (.item "minecraft:book" 0 [.marker .setDamage]))
        (.ok (.item "minecraft:enchanted_book" 0 [.marker .enchantRandomly]))
        (.ok (.item "minecraft:enchanted_book" 0 [.marker .setDamage, .marker .enchantRandomly]))) ∧
      Splits JoinedPools (Defect.MovedAt [.field "entries"] 1)
        (.ok ⟨.constant 1, [.item "minecraft:book" 0 []]⟩)
        (.error ⟨[.field "entries", .item 0], .notObject .null⟩)
        (.error ⟨[.field "entries", .item 1], .notObject .null⟩) :=
  ⟨(arrays_split bookFields).2.2 (by decide) [markerObject .setDamage] [markerObject .enchantRandomly],
    (arrays_split onceFields).2.1 [.object bookFields] [.null] (by decide) (by decide)⟩

end LootTables
