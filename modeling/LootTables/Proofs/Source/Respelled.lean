import LootTables.Proofs.Json.IntegerText
import LootTables.Proofs.Source.Batch
import LootTables.Proofs.Source.Spelled
import LootTables.Proofs.Table.ReadFields

/-!
# Integers that are spelled in another way

The number of rolls of a pool, the weight of an entry and the count that a function sets are integers.
However one of them is written, with digits only or with a fraction of zeros or an exponent, the
document means the same by it (`integer_spellings`). Two documents are *respelled* if they differ in
such integers only, and then they give the same table and the same declaration, or fail in the same
way.

What holds of two documents as they are written carries over to what is read of them, where of a
repeated key only the last value is left (`Respelled.lastKept`). From there on each decoder gives the
same for both.
-/

namespace LootTables

namespace Json

/-! ### Respelled documents -/

/-- The fields that hold an integer. -/
def integerFields : List Text := ["rolls", "weight", "count"]

/-- The number is what some text of the integer `n` spells. -/
inductive WritesInteger : Json → Int → Prop
  | number {x : NumberText} {num : Number} {n : Int} (h : x.DenotesInteger n) (spells : x.Spells num) :
      WritesInteger (.number num) n

mutual

/-- The values are the same but for the spelling of integers. -/
inductive Respelled : Json → Json → Prop
  | refl (v : Json) : Respelled v v
  | array {xs ys : List Json} (h : List.Forall₂ Respelled xs ys) : Respelled (.array xs) (.array ys)
  | object {fs gs : Fields} (h : Assoc.Related FieldRespelled fs gs) :
      Respelled (.object fs) (.object gs)

/-- The same for the values of a field. -/
inductive FieldRespelled : Text → Json → Json → Prop
  | same {name : Text} {v w : Json} (h : Respelled v w) : FieldRespelled name v w
  | integer {name : Text} {v w : Json} {n : Int} (hname : name ∈ integerFields)
      (hv : WritesInteger v n) (hw : WritesInteger w n) : FieldRespelled name v w

end

theorem WritesInteger.lastKept_eq {v : Json} {n : Int} (h : v.WritesInteger n) : v.lastKept = v := by
  cases h
  rfl

-- The relation goes through lists of items and fields, so the recursion is on the value that it is about.
mutual

/-- What is left of respelled values is respelled. -/
theorem Respelled.lastKept : (v : Json) → {w : Json} → v.Respelled w → v.lastKept.Respelled w.lastKept
  | .array items, _, h => by
    cases h with
    | refl => exact .refl _
    | array h => exact .array (respelled_lastKeptItems items h)
  | .object fields, _, h => by
    cases h with
    | refl => exact .refl _
    | object h => exact .object (respelled_lastKeptFields fields h).lastValues
  | .null, _, h | .bool _, _, h | .number _, _, h | .string _, _, h => by
    cases h
    exact .refl _

theorem respelled_lastKeptItems : (xs : List Json) → {ys : List Json} → List.Forall₂ Respelled xs ys →
    List.Forall₂ Respelled (lastKeptItems xs) (lastKeptItems ys)
  | [], _, .nil => .nil
  | v :: xs, _, .cons h hs => .cons (Respelled.lastKept v h) (respelled_lastKeptItems xs hs)

theorem respelled_lastKeptFields : (fs : Fields) → {gs : Fields} → Assoc.Related FieldRespelled fs gs →
    Assoc.Related FieldRespelled (lastKeptFields fs) (lastKeptFields gs)
  | [], _, .nil => .nil
  | (_, v) :: fs, _, .cons h hs => by
    refine .cons ?_ (respelled_lastKeptFields fs hs)
    cases h with
    | same h => exact .same (Respelled.lastKept v h)
    | integer hname hv hw =>
      rw [hv.lastKept_eq, hw.lastKept_eq]
      exact .integer hname hv hw

end

/-! ### What the parts have in common -/

theorem WritesInteger.isInteger {v : Json} {n : Int} (h : v.WritesInteger n) : v.IsInteger n := by
  cases h with
  | @number x num n h spells =>
    have hvalue := h.value?_eq spells
    cases num with
    | integer m =>
      obtain rfl : m = n := by exact_mod_cast Option.some.inj hvalue
      exact .integer m
    | double d =>
      cases d with
      | finite d => exact .double (Option.some.inj hvalue)
      | nan | infinite => cases hvalue

namespace Respelled

variable {v w : Json}

theorem leafAlike (h : v.Respelled w) : v.LeafAlike w := by
  cases h with
  | refl => exact .refl _
  | array => exact .array _ _
  | object => exact .object _ _

theorem objectAlike (h : v.Respelled w) : v.ObjectAlike (Assoc.Related FieldRespelled) w := by
  cases h with
  | refl =>
    cases v with
    | object fields => exact .fields (.refl (fun _ _ => .same (.refl _)) fields)
    | null | bool | string | array => exact .other nofun (.refl _)
    | number num => exact .other (by cases num <;> nofun) (.refl _)
  | array => exact .other nofun (.array _ _)
  | object h => exact .fields h

theorem arrayAlike (h : v.Respelled w) : v.ArrayAlike (List.Forall₂ Respelled) w := by
  cases h with
  | refl =>
    cases v with
    | array items => exact .items (List.forall₂_same.2 fun _ _ => .refl _)
    | null | bool | string | object => exact .other nofun (.refl _)
    | number num => exact .other (by cases num <;> nofun) (.refl _)
  | array h => exact .items h
  | object => exact .other nofun (.object _ _)

end Respelled

namespace FieldRespelled

variable {name : Text} {v w : Json}

/-- Only the fields that hold an integer may differ by themselves. -/
theorem respelled (h : FieldRespelled name v w) (hname : name ∉ integerFields) : v.Respelled w := by
  cases h with
  | same h => exact h
  | integer hmem => exact absurd hmem hname

theorem toInteger_eq (h : FieldRespelled name v w) : v.toInteger = w.toInteger := by
  cases h with
  | same h => exact h.leafAlike.toInteger_eq
  | integer _ hv hw =>
    rw [toInteger_eq_ok_iff.2 hv.isInteger, toInteger_eq_ok_iff.2 hw.isInteger]

end FieldRespelled

end Json

/-! ### Fields -/

namespace Fields

open Json

variable {fs gs : Fields} {name : Text}

theorem AlikeAt.mono {R S : Json → Json → Prop} (h : AlikeAt name R fs gs)
    (hRS : ∀ v w, R v w → S v w) : AlikeAt name S fs gs := by
  unfold AlikeAt at h ⊢
  generalize fs.lookup name = a at h ⊢
  generalize gs.lookup name = b at h ⊢
  cases h with
  | some h => exact .some (hRS _ _ h)
  | none => exact .none

variable (h : Assoc.Related FieldRespelled fs gs)

include h

theorem alikeAt_of_respelled : AlikeAt name (FieldRespelled name) fs gs := h.lookup name

theorem leafAlikeAt_of_respelled (hname : name ∉ integerFields) : AlikeAt name LeafAlike fs gs :=
  AlikeAt.mono (h.lookup name) fun _ _ h => (h.respelled hname).leafAlike

theorem arrayAlikeAt_of_respelled (hname : name ∉ integerFields) :
    AlikeAt name (ArrayAlike (List.Forall₂ Respelled)) fs gs :=
  AlikeAt.mono (h.lookup name) fun _ _ h => (h.respelled hname).arrayAlike

/-- A range is no integer, so its bounds are the same. -/
theorem rangeAlike_of_respelled : RangeAlike fs gs where
  min := leafAlikeAt_of_respelled h (by decide)
  max _ _ _ _ := leafAlikeAt_of_respelled h (by decide)

theorem countFieldsAlike_of_respelled : CountFieldsAlike fs gs where
  type := leafAlikeAt_of_respelled h (by decide)
  range _ := rangeAlike_of_respelled h

end Fields

/-! ### The levels of a document -/

namespace Json

variable {v w : Json} {name : Text}

theorem ObjectAlike.mono {R S : Fields → Fields → Prop} (h : v.ObjectAlike R w)
    (hRS : ∀ fs gs, R fs gs → S fs gs) : v.ObjectAlike S w := by
  cases h with
  | fields h => exact .fields (hRS _ _ h)
  | other hkind h => exact .other hkind h

theorem itemsAlike_of_forall₂ {α : Type} {P : Json → α → Prop} {R : Json → Json → Prop}
    {xs ys : List Json} (h : List.Forall₂ R xs ys) : ItemsAlike P R xs ys := by
  induction h with
  | nil => exact .nil
  | cons h _ ih => exact .cons h fun _ _ => ih

theorem FieldRespelled.decodeRoll_eq (h : FieldRespelled name v w) : decodeRoll v = decodeRoll w := by
  cases h with
  | same h => exact decodeRoll_congr (h.objectAlike.mono fun _ _ => Fields.rangeAlike_of_respelled)
  | integer _ hv hw =>
    rw [decodeRoll_eq_ok_iff.2 (.constant hv.isInteger), decodeRoll_eq_ok_iff.2 (.constant hw.isInteger)]

theorem FieldRespelled.decodeCount_eq (h : FieldRespelled name v w) :
    decodeCount v = decodeCount w := by
  cases h with
  | same h =>
    exact decodeCount_congr (h.objectAlike.mono fun _ _ => Fields.countFieldsAlike_of_respelled)
  | integer _ hv hw =>
    rw [decodeCount_eq_ok_iff.2 (.constant hv.isInteger),
      decodeCount_eq_ok_iff.2 (.constant hw.isInteger)]

theorem Respelled.decodeFunction_eq (h : v.Respelled w) : decodeFunction v = decodeFunction w := by
  apply h.objectAlike.fields_bind_eq
  intro fs gs h
  apply (Fields.leafAlikeAt_of_respelled h (by decide)).requiredString_bind_eq
  intro t _
  by_cases hcount : t = tag "set_count"
  · rw [if_pos hcount, if_pos hcount]
    apply (Fields.alikeAt_of_respelled h).required_bind_eq
    intro v w _ hvw
    rw [hvw.decodeCount_eq]
  · rw [if_neg hcount, if_neg hcount]

theorem Respelled.decodeEntry_eq (h : v.Respelled w) : decodeEntry v = decodeEntry w := by
  apply h.objectAlike.fields_bind_eq
  intro fs gs h
  apply (Fields.leafAlikeAt_of_respelled h (by decide)).requiredString_bind_eq
  intro type _
  by_cases hempty : type = tag "empty"
  · rw [if_pos hempty, if_pos hempty,
      (Fields.alikeAt_of_respelled h).requiredInteger_eq fun _ _ hvw => hvw.toInteger_eq]
  · rw [if_neg hempty, if_neg hempty]
    apply (Fields.leafAlikeAt_of_respelled h (by decide)).requiredString_bind_eq
    intro itemName _
    rw [(Fields.alikeAt_of_respelled h).optionalInteger_eq fun _ _ hvw => hvw.toInteger_eq]
    apply bind_congr_of_ok
    intro weight _
    apply (Fields.arrayAlikeAt_of_respelled h (by decide)).optionalArray_bind_eq
    intro xs ys hitems
    rw [decodeItems_congr @decodeFunction_eq_ok_iff (fun _ _ h => h.decodeFunction_eq)
      (itemsAlike_of_forall₂ hitems)]

theorem Respelled.decodePool_eq (h : v.Respelled w) : decodePool v = decodePool w := by
  apply h.objectAlike.fields_bind_eq
  intro fs gs h
  apply (Fields.alikeAt_of_respelled h).required_bind_eq
  intro rolls rolls' _ hrolls
  rw [hrolls.decodeRoll_eq]
  apply bind_congr_of_ok
  intro roll _
  apply (Fields.arrayAlikeAt_of_respelled h (by decide)).requiredArray_bind_eq
  intro xs ys hitems
  have hempty : xs.isEmpty = ys.isEmpty := by cases hitems <;> rfl
  rw [hempty, decodeItems_congr @decodeEntry_eq_ok_iff (fun _ _ h => h.decodeEntry_eq)
    (itemsAlike_of_forall₂ hitems)]

theorem Respelled.decodePools_eq (h : v.Respelled w) : decodePools v = decodePools w := by
  apply h.objectAlike.fields_bind_eq
  intro fs gs h
  apply (Fields.arrayAlikeAt_of_respelled h (by decide)).requiredArray_bind_eq
  intro xs ys hitems
  rw [decodeItems_congr @decodePool_eq_ok_iff (fun _ _ h => h.decodePool_eq)
    (itemsAlike_of_forall₂ hitems)]

/-- Respelled documents give the same table, or have the same defect. -/
theorem Respelled.toTable_eq (h : v.Respelled w) (name : Text) : v.toTable name = w.toTable name := by
  unfold toTable
  rw [h.decodePools_eq]

end Json

/-! ### Documents -/

/-- What is declared by bytes that are read depends on what is read. -/
theorem declares_iff {limit : Nat} {suffix itemNamespace fileName declaration : Text} {bytes : Bytes}
    {s : Text} {v : Json} (hs : Utf8.decode bytes = .ok s)
    (hv : Json.read s.unifyNewlines limit = .ok v) :
    Declares limit suffix itemNamespace fileName bytes declaration ↔
      ∃ table, v.toTable (tableName fileName suffix) = .ok table ∧
        table.render itemNamespace = .ok declaration := by
  constructor
  · rintro ⟨s', document, table, hs', hdocument, htable, hrender⟩
    obtain rfl := Except.ok.inj (hs.symm.trans hs')
    obtain rfl := Except.ok.inj (hv.symm.trans hdocument)
    exact ⟨table, htable, hrender⟩
  · rintro ⟨table, htable, hrender⟩
    exact ⟨s, v, table, hs, hv, htable, hrender⟩

/-- The number that a text of an integer spells is decoded to this integer wherever one is expected. -/
theorem Json.WritesInteger.decode_eq {num : Number} {n : Int}
    (h : Json.WritesInteger (.number num) n) :
    decodeRoll (.number num) = .ok (.constant n) ∧ decodeCount (.number num) = .ok (.constantCount n) ∧
      ∀ fields : Fields, fields.Has "weight" (.number num) →
        fields.requiredInteger "weight" = .ok n ∧ fields.optionalInteger "weight" = .ok n :=
  ⟨decodeRoll_eq_ok_iff.2 (.constant h.isInteger), decodeCount_eq_ok_iff.2 (.constant h.isInteger),
    fun _ has => ⟨Fields.requiredInteger_eq_ok_iff.2 ⟨_, has, h.isInteger⟩,
      Fields.optionalInteger_eq_ok_iff.2 (.inr ⟨_, has, h.isInteger⟩)⟩⟩

/-- Each text of an integer is read as a number that is decoded to exactly this integer, as a number of
rolls, as a weight and as a count. A file that spells a document in which integers are written in such
ways is loaded as the pools that the document stands for, and documents that differ in these ways only
are loaded alike, even where they are refused, and declare the same. -/
theorem integer_spellings :
    (∀ (x : Json.NumberText) (n : Int), x.DenotesInteger n → ∃ num, x.Spells num ∧
      (∀ r, Json.EndsNumber r → Json.readNumber (x.text ++ r) = .ok (num, r)) ∧
      (Json.number num).IsInteger n ∧ decodeRoll (.number num) = .ok (.constant n) ∧
      decodeCount (.number num) = .ok (.constantCount n) ∧
      ∀ fields : Fields, fields.Has "weight" (.number num) →
        fields.requiredInteger "weight" = .ok n ∧ fields.optionalInteger "weight" = .ok n) ∧
    (∀ (limit : Nat) (v : Json) (bytes : Bytes) (pools : List LootPool), v.SpelledIn limit bytes →
      v.lastKept.IsDocument pools → ∀ (t : FileTree) (p : Path) (suffix : Text),
        t.contentOf p = .ok bytes → loadTable t limit suffix p = .ok ⟨tableName p.name suffix, pools⟩) ∧
    ∀ (limit : Nat) (v w : Json) (bytes bytes' : Bytes), v.Respelled w → v.SpelledIn limit bytes →
      w.SpelledIn limit bytes' →
      (∀ (t t' : FileTree) (p : Path) (suffix : Text), t.contentOf p = .ok bytes →
        t'.contentOf p = .ok bytes' → loadTable t' limit suffix p = loadTable t limit suffix p) ∧
      ∀ suffix itemNamespace fileName declaration : Text,
        Declares limit suffix itemNamespace fileName bytes declaration ↔
          Declares limit suffix itemNamespace fileName bytes' declaration := by
  refine ⟨fun x n h => ?_, fun limit v bytes pools hv hpools t p suffix hbytes => ?_,
    fun limit v w bytes bytes' hvw hv hw => ⟨?_, ?_⟩⟩
  · obtain ⟨num, hspells, -⟩ := h.exists_spells
    have hwrites : Json.WritesInteger (.number num) n := .number h hspells
    exact ⟨num, hspells, fun r hr => Json.readNumber_text hspells hr, hwrites.isInteger,
      hwrites.decode_eq⟩
  · unfold loadTable
    rw [hv.loadDocument le_rfl hbytes, ok_bind]
    exact mapError_eq_ok_iff.2 (toTable_eq_ok_iff.2 ⟨rfl, hpools⟩)
  · intro t t' p suffix hbytes hbytes'
    have htable := (Json.Respelled.lastKept v hvw).toTable_eq
    unfold loadTable
    rw [hv.loadDocument le_rfl hbytes, hw.loadDocument le_rfl hbytes', ok_bind, ok_bind, htable]
  · intro suffix itemNamespace fileName declaration
    have htable := (Json.Respelled.lastKept v hvw).toTable_eq
    obtain ⟨s, hs, hread⟩ := hv.read le_rfl
    obtain ⟨s', hs', hread'⟩ := hw.read le_rfl
    rw [declares_iff hs hread, declares_iff hs' hread', htable]

/-! ### A document in two spellings -/

/-- A document with one entry, which gives nothing. -/
def emptyEntryDocument (rolls weight : Number) : Json :=
  .object [("pools", .array [.object [("rolls", .number rolls), ("entries", .array [
    .object [("type", .string "minecraft:empty"), ("weight", .number weight)]])]])]

def emptyEntryTokens (rolls weight : Text) : List Text :=
  ["\x7b", "\x22pools\x22", ":", "[", "\x7b", "\x22rolls\x22", ":", rolls, ",", "\x22entries\x22", ":", "[",
    "\x7b", "\x22type\x22", ":", "\x22minecraft:empty\x22", ",", "\x22weight\x22", ":", weight, "\x7d",
    "]", "\x7d", "]", "\x7d"]

theorem emptyEntryDocument_written {x y : Json.NumberText} {rolls weight : Number} (hx : x.Spells rolls)
    (hy : y.Spells weight) :
    Json.Written spelledDepth (emptyEntryDocument rolls weight) (emptyEntryTokens x.text y.text) := by
  have htype : Json.StringText "type" "\x22type\x22" := Json.stringText_raw (by decide) (by decide)
  have hempty : Json.StringText "minecraft:empty" "\x22minecraft:empty\x22" :=
    Json.stringText_raw (by decide) (by decide)
  have hweight : Json.StringText "weight" "\x22weight\x22" := Json.stringText_raw (by decide) (by decide)
  have hrolls : Json.StringText "rolls" "\x22rolls\x22" := Json.stringText_raw (by decide) (by decide)
  have hentries : Json.StringText "entries" "\x22entries\x22" :=
    Json.stringText_raw (by decide) (by decide)
  have hpools : Json.StringText "pools" "\x22pools\x22" := Json.stringText_raw (by decide) (by decide)
  have htag : Json.Written 0 (.string "minecraft:empty") _ := ⟨_, .string hempty, rfl⟩
  have hnumber : Json.Written 0 (.number weight) _ := ⟨_, .number hy, rfl⟩
  have hentry : Json.Written 1 (.object _) _ :=
    Json.WrittenWith.object (.cons (.field htype htag) (.cons (.field hweight hnumber) .nil))
  have hitems : Json.Written 2 (.array _) _ := Json.WrittenWith.array (.cons hentry .nil)
  have hroll : Json.Written 2 (.number rolls) _ := Json.WrittenWith.scalar (.number hx)
  have hpool : Json.Written 3 (.object _) _ :=
    Json.WrittenWith.object (.cons (.field hrolls hroll) (.cons (.field hentries hitems) .nil))
  have hlist : Json.Written 4 (.array _) _ := Json.WrittenWith.array (.cons hpool .nil)
  have hdocument : Json.Written 5 (emptyEntryDocument rolls weight) (emptyEntryTokens x.text y.text) :=
    Json.WrittenWith.object (.cons (.field hpools hlist) .nil)
  exact hdocument.mono (by decide)

/-- Five in digits. -/
def fiveText : Json.NumberText := .ofInt 5

/-- Five hundredths times a hundred. -/
def scaledFiveText : Json.NumberText where
  negative := false
  whole := "0"
  fraction := "05"
  exponent := some ⟨'e', [], "2", by decide, by decide, by decide, by decide⟩
  whole_ne_nil := by decide
  whole_isDigit := by decide
  whole_zero := by decide
  fraction_isDigit := by decide

/-- Five rolls and a weight of five are read from the document however the five is spelled. -/
theorem emptyEntryDocument_loads : fiveText.DenotesInteger 5 ∧ scaledFiveText.DenotesInteger 5 ∧
    ∃ num bytes bytes', scaledFiveText.Spells num ∧
      (emptyEntryDocument (.integer 5) (.integer 5)).SpelledIn spelledDepth bytes ∧
      (emptyEntryDocument num num).SpelledIn spelledDepth bytes' ∧
      loadTable ((FileTree.empty []).put ["loot.json"] (.file bytes')) spelledDepth []
        ⟨.root, ["loot.json"]⟩ = .ok ⟨"LOOT", [⟨.constant 5, [.empty 5]⟩]⟩ := by
  have hfive : fiveText.DenotesInteger 5 := ⟨Json.NumberText.value_ofInt 5, .inl (by decide)⟩
  have hscaled : scaledFiveText.DenotesInteger 5 := by
    refine ⟨?_, .inl (by decide)⟩
    have hwhole : Text.natOfDigits scaledFiveText.whole = 0 := by decide
    have hfraction : Text.natOfDigits scaledFiveText.fraction = 5 := by decide
    have hlength : scaledFiveText.fraction.length = 2 := by decide
    have hexponent : scaledFiveText.exponentValue = 2 := by decide
    unfold Json.NumberText.value Json.NumberText.magnitude
    rw [hwhole, hfraction, hlength, hexponent]
    norm_num [Binary.signed, scaledFiveText]
  have hspells : fiveText.Spells (.integer 5) := Json.NumberText.spells_ofInt (by decide)
  obtain ⟨num, hnum, -⟩ := integer_spellings.1 scaledFiveText 5 hscaled
  obtain ⟨bytes, hbytes⟩ : ∃ bytes, Utf8.encode
      (emptyEntryTokens fiveText.text fiveText.text).flatten = .ok bytes :=
    exists_eq_ok_of_isSome (by decide +kernel)
  obtain ⟨bytes', hbytes'⟩ : ∃ bytes, Utf8.encode
      (emptyEntryTokens scaledFiveText.text scaledFiveText.text).flatten = .ok bytes :=
    exists_eq_ok_of_isSome (by decide +kernel)
  have hplain : (emptyEntryDocument (.integer 5) (.integer 5)).SpelledIn spelledDepth bytes :=
    ⟨_, _, emptyEntryDocument_written hspells hspells, Json.spaced_flatten _, hbytes⟩
  have hother : (emptyEntryDocument num num).SpelledIn spelledDepth bytes' :=
    ⟨_, _, emptyEntryDocument_written hnum hnum, Json.spaced_flatten _, hbytes'⟩
  have hrespelled : (emptyEntryDocument (.integer 5) (.integer 5)).Respelled
      (emptyEntryDocument num num) := by
    have hentry : ∀ {name}, name ∈ Json.integerFields →
        Json.FieldRespelled name (.number (.integer 5)) (.number num) := fun hname =>
      .integer hname (.number hfive hspells) (.number hscaled hnum)
    refine .object (.cons (.same (.array (.cons (.object ?pool) .nil))) .nil)
    refine .cons (hentry (by decide)) (.cons (.same (.array (.cons (.object ?entry) .nil))) .nil)
    exact .cons (.same (.refl _)) (.cons (hentry (by decide)) .nil)
  refine ⟨hfive, hscaled, num, bytes, bytes', hnum, hplain, hother, ?_⟩
  have hsame := (integer_spellings.2.2 _ _ _ _ _ hrespelled hplain hother).1
    ((FileTree.empty []).put ["loot.json"] (.file bytes))
    ((FileTree.empty []).put ["loot.json"] (.file bytes')) ⟨.root, ["loot.json"]⟩ [] rfl rfl
  have hpools : (emptyEntryDocument (.integer 5) (.integer 5)).lastKept.IsDocument
      [⟨.constant 5, [.empty 5]⟩] := decodePools_eq_ok_iff.1 rfl
  rw [hsame]
  exact integer_spellings.2.1 _ _ _ _ hplain hpools _ _ _ rfl

end LootTables
