import LootTables.Proofs.Json.Place
import LootTables.Proofs.Table.Defects
import LootTables.Table.Parser

/-!
# Defects point at what is wrong

A decoder says where the first defect is and what is wrong there. `Json.HasDefect` says of a value at
some place that this is indeed wrong with it, without a look at how documents are decoded. Level by
level, the defect for which a value is refused points to such a part of it (`Defect.PointsInto`).

A parser may be used for one document after another, whatever became of those before. Every error is one
of the document and the name that it was given last (`Parser.error_place`).
-/

namespace LootTables

/-! ## What is wrong with a value -/

/-- What a cause says is wrong with a value, the value being the one at this path. The path tells
which field it is, where the cause names a field, and that it is a function or a count. -/
inductive Json.HasDefect : Json → JsonPath → Cause → Prop
  | notObject {v : Json} {path : JsonPath} (h : v.kind ≠ .object) :
      HasDefect v path (.notObject v.kind)
  | missing {fields : Fields} {path : JsonPath} {name : Text} (h : fields.Lacks name) :
      HasDefect (.object fields) path (.missing name)
  | wrongKind {v : Json} {path : JsonPath} {name : Text} {expected : JsonKind}
      (h : v.kind ≠ expected) :
      HasDefect v (path ++ [.field name]) (.wrongKind name expected v.kind)
  | notInteger {v : Json} {path : JsonPath} (h : ∀ n, v ≠ .number n) :
      HasDefect v path (.notInteger v.kind)
  | notIntegral {x : Double} {path : JsonPath} (h : ∀ n, ¬ IsInteger (.number (.double x)) n) :
      HasDefect (.number (.double x)) path (.notIntegral x)
  | notNumber {v : Json} {path : JsonPath} {name : Text} (h : ∀ n, v ≠ .number n) :
      HasDefect v (path ++ [.field name]) (.notNumber name v.kind)
  | outOfRange {n : Number} {path : JsonPath} {name : Text} {e : BoundError}
      (h : ∀ x, ¬ IsBound (.number n) x) (past : n.IsPastSingles) :
      HasDefect (.number n) (path ++ [.field name]) (.outOfRange name e)
  | noEntries {path : JsonPath} : HasDefect (.array []) (path ++ [.field "entries"]) .noEntries
  | function {fields : Fields} {path : JsonPath} {index : Nat} {t : Text}
      (hasTag : fields.Has "function" (.string t)) (noCount : t ≠ "minecraft:set_count")
      (noMarker : ∀ m : Marker, t ≠ tag m.name) :
      HasDefect (.object fields) (path ++ [.field "functions", .item index]) (.unsupported t)
  | distribution {fields : Fields} {path : JsonPath} {type : Text}
      (hasType : fields.Has "type" (.string type)) (other : type ≠ "minecraft:uniform") :
      HasDefect (.object fields) (path ++ [.field "count"])
        (.unsupported ("minecraft:set_count (" ++ type ++ ")"))

/-- The path of the defect leads from a value, which itself is reached by the path `before`, to a part
of it that has this defect, and its steps stay apart when the path is written. -/
structure Defect.PointsInto (d : Defect) (v : Json) (before : JsonPath) : Prop where
  part : ∃ w, v.at? d.path = some w ∧ w.HasDefect (before ++ d.path) d.cause
  keys : ∀ step ∈ d.path, Path.slash ∉ step.key

namespace Defect.PointsInto

variable {v w : Json} {before : JsonPath} {cause : Cause} {d : Defect} {step : PathStep}

theorem here (h : v.HasDefect before cause) : (Defect.mk [] cause).PointsInto v before where
  part := ⟨v, rfl, (List.append_nil before).symm ▸ h⟩
  keys := List.forall_mem_nil _

/-- A defect that points into a part points into the whole, from one step further out. -/
theorem under (h : d.PointsInto w (before ++ [step])) (hchild : v.child? step = some w)
    (hkey : Path.slash ∉ step.key) : (d.under step).PointsInto v before where
  part := by
    obtain ⟨u, hat, hu⟩ := h.part
    refine ⟨u, Option.bind_eq_some_iff.2 ⟨w, hchild, hat⟩, ?_⟩
    rwa [List.append_assoc] at hu
  keys := List.forall_mem_cons.2 ⟨hkey, h.keys⟩

end Defect.PointsInto

/-! ## Level by level -/

namespace Json

variable {v : Json} {d : Defect} {before : JsonPath} {fields : Fields} {name : Text}
  {D : Json → Defect → Prop}

/-- The defects that `D` relates to a value at this path are defects of it. -/
abbrev Located (D : Json → Defect → Prop) (path : JsonPath) : Prop :=
  ∀ v d, D v d → d.PointsInto v path

theorem located_kindDefect {expected : JsonKind} :
    Located (KindDefect name expected) (before ++ [.field name]) := by
  rintro v d ⟨h⟩
  exact .here (.wrongKind h)

theorem located_integerDefect : Located IntegerDefect before := by
  intro v d h
  cases h with
  | notNumber h => exact .here (.notInteger h)
  | notIntegral h => exact .here (.notIntegral h)

/-- What is refused as a bound is none. -/
theorem BoundDefect.not_isBound (h : v.BoundDefect name d) (x : Binary binary64) : ¬ v.IsBound x := by
  intro hx
  have hok : Fields.asBound name v = .ok (.double (.finite x)) := asBound_eq_ok_iff.2 ⟨x, rfl, hx⟩
  cases (asBound_eq_error_iff.2 h).symm.trans hok

theorem located_boundDefect : Located (BoundDefect name) (before ++ [.field name]) := by
  intro v d h
  have hnone := h.not_isBound
  cases h with
  | notNumber h => exact .here (.notNumber h)
  | notFinite h => exact .here (.outOfRange hnone (Number.isPastSingles_of_not_finite h))
  | doublePastSingle h => exact .here (.outOfRange hnone (Number.isPastSingles_double h))
  | integerPastSingle near h =>
    refine .here (.outOfRange hnone (Number.isPastSingles_integer ?_))
    intro x hx
    cases near.symm.trans hx
    exact h
  | integerPastDouble h =>
    refine .here (.outOfRange hnone (Number.isPastSingles_integer ?_))
    intro x hx
    cases h.symm.trans hx

/-! ### Fields and items -/

theorem InField.pointsInto (h : InField fields name D d) (hname : Path.slash ∉ name)
    (hD : Located D (before ++ [.field name])) : d.PointsInto (.object fields) before := by
  obtain ⟨has, h⟩ := h
  exact (hD _ _ h).under has hname

theorem FieldDefect.pointsInto (h : FieldDefect fields name D d) (hname : Path.slash ∉ name)
    (hD : Located D (before ++ [.field name])) : d.PointsInto (.object fields) before := by
  cases h with
  | missing h => exact .here (.missing h)
  | inside h => exact h.pointsInto hname hD

/-- The index of a number of items leads past those to the next one. -/
theorem ItemsDefect.pointsInto {α : Type} {P : Json → α → Prop} {items : List Json}
    (h : ItemsDefect P D items d) (hD : ∀ index, Located D (before ++ [.item index])) :
    d.PointsInto (.array items) before := by
  obtain ⟨hbefore, h⟩ := h
  refine (hD _ _ _ h).under (by simp [Json.child?]) ?_
  intro hslash
  exact absurd (Text.isDigit_of_mem_ofNat hslash) (by decide)

theorem located_arrayDefect {α : Type} {P : Json → α → Prop}
    (hD : ∀ index, Located D (before ++ [.field name, .item index])) :
    Located (ArrayDefect name P D) (before ++ [.field name]) := by
  intro v d h
  cases h with
  | kind h => exact located_kindDefect _ _ h
  | items h =>
    refine h.pointsInto fun index => ?_
    rw [List.append_assoc]
    exact hD index

/-! ### The parts of a document -/

theorem RangeDefect.pointsInto (h : RangeDefect fields d) : d.PointsInto (.object fields) before := by
  cases h with
  | min h => exact h.pointsInto (by decide) located_boundDefect
  | max _ _ h => exact h.pointsInto (by decide) located_boundDefect

theorem located_rollDefect : Located RollDefect before := by
  intro v d h
  cases h with
  | constant _ h => exact located_integerDefect _ _ h
  | uniform h => exact h.pointsInto

theorem located_countDefect : Located CountDefect (before ++ [.field "count"]) := by
  intro v d h
  cases h with
  | constant _ h => exact located_integerDefect _ _ h
  | type h => exact h.pointsInto (by decide) located_kindDefect
  | unsupported hasType other => exact .here (.distribution hasType other)
  | uniform _ h => exact h.pointsInto

theorem located_functionDefect (index : Nat) :
    Located FunctionDefect (before ++ [.field "functions", .item index]) := by
  intro v d h
  cases h with
  | notObject h => exact .here (.notObject h)
  | tag h => exact h.pointsInto (by decide) located_kindDefect
  | count _ h => exact h.pointsInto (by decide) located_countDefect
  | unsupported hasTag noCount noMarker => exact .here (.function hasTag noCount noMarker)

theorem located_entryDefect : Located EntryDefect before := by
  intro v d h
  cases h with
  | notObject h => exact .here (.notObject h)
  | type h => exact h.pointsInto (by decide) located_kindDefect
  | emptyWeight _ h => exact h.pointsInto (by decide) located_integerDefect
  | name _ _ h => exact h.pointsInto (by decide) located_kindDefect
  | weight _ _ _ h => exact h.pointsInto (by decide) located_integerDefect
  | functions _ _ _ _ h => exact h.pointsInto (by decide) (located_arrayDefect located_functionDefect)

theorem located_poolDefect : Located PoolDefect before := by
  intro v d h
  cases h with
  | notObject h => exact .here (.notObject h)
  | rolls h => exact h.pointsInto (by decide) located_rollDefect
  | entries _ _ h =>
    exact h.pointsInto (by decide) (located_arrayDefect fun _ => located_entryDefect)
  | noEntries _ _ hasEntries =>
    have hentries : (Defect.mk [] .noEntries).PointsInto (.array []) (before ++ [.field "entries"]) :=
      .here .noEntries
    exact hentries.under hasEntries (by decide)

theorem located_documentDefect : Located DocumentDefect [] := by
  intro v d h
  cases h with
  | notObject h => exact .here (.notObject h)
  | pools h => exact h.pointsInto (by decide) (located_arrayDefect fun _ => located_poolDefect)

end Json

/-- The error of a document is in the name of its table, and its path as it is written leads to a part
of the document that has the defect. -/
theorem toTable_error_place {v : Json} {name : Text} {e : DecodeError}
    (h : v.toTable name = .error e) :
    e.table = name ∧ ∃ w, v.follow? (pathText e.path) = some w ∧ w.HasDefect e.path e.cause := by
  obtain ⟨htable, hdefect⟩ := toTable_eq_error_iff.1 h
  obtain ⟨⟨w, hat, hw⟩, hkeys⟩ := Json.located_documentDefect v _ hdefect
  exact ⟨htable, w, Json.follow?_pathText hkeys hat, hw⟩

/-! ## Parsers that are used again -/

namespace Parser

/-- Decodes documents one after another, each under its name. -/
def run (p : Parser) : List (Json × Text) → List (Except DecodeError LootTable)
  | [] => []
  | (v, name) :: documents => (p.parse v name).2 :: (p.parse v name).1.run documents

theorem run_eq_map (p : Parser) (documents : List (Json × Text)) :
    p.run documents = documents.map fun document => document.1.toTable document.2 := by
  induction documents generalizing p with
  | nil => rfl
  | cons document documents ih => rw [run, parse_eq, List.map_cons, ih]

/-- In a sequence of documents that one parser decodes, every error is in the name under which its
document was decoded, and points to a part of this document that has the defect. -/
theorem error_place (p : Parser) (documents : List (Json × Text)) (i : Nat) {v : Json} {name : Text}
    {e : DecodeError} (hdocument : documents[i]? = some (v, name))
    (herror : (p.run documents)[i]? = some (.error e)) :
    e.table = name ∧ ∃ w, v.follow? (pathText e.path) = some w ∧ w.HasDefect e.path e.cause := by
  rw [run_eq_map, List.getElem?_map, hdocument] at herror
  exact toTable_error_place (Option.some.inj herror)

/-- A document with a pool in which there is nothing. -/
def emptyPool : Json :=
  .object [("pools", .array [.object [("rolls", .number (.integer 1)), ("entries", .array [])]])]

/-- Three documents under their names, of which the second one decodes. -/
def mixedDocuments : List (Json × Text) :=
  [(.array [], "FIRST"), (.object [("pools", .array [])], "SECOND"), (emptyPool, "THIRD")]

/-- The error of the third document, on which the first one leaves no trace. -/
theorem mixedDocuments_error_place :
    (Parser.run ⟨"START"⟩ mixedDocuments)[2]? =
        some (.error ⟨⟨[.field "pools", .item 0, .field "entries"], .noEntries⟩, "THIRD"⟩) ∧
      ∃ w : Json, emptyPool.follow? "#/pools/0/entries" = some w ∧
        w.HasDefect [.field "pools", .item 0, .field "entries"] .noEntries := by
  have herror : (Parser.run ⟨"START"⟩ mixedDocuments)[2]? =
      some (.error ⟨⟨[.field "pools", .item 0, .field "entries"], .noEntries⟩, "THIRD"⟩) := rfl
  exact ⟨herror, (error_place ⟨"START"⟩ mixedDocuments 2 rfl herror).2⟩

end Parser

end LootTables
