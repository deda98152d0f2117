import LootTables.Proofs.Table.Defects
import LootTables.Proofs.Text.Numeral
import LootTables.Proofs.Text.Quoted

/-!
# Messages of decode errors

A message says where a defect is and what is wrong there. Its parts come from three sources. What a document
spells out, the tag of a function or a distribution, is quoted. Numbers are written in figures. The path
goes only through fields that the decoder asks for (`PathStep.IsKnown`), never through other names of the
document. None of these has a line break, so a message is one line if the name of the table is
(`DecodeError.isUnbroken_message`), and a quoted tag can be read back from it
(`DecodeError.unsupported_inj`).
-/

namespace LootTables

/-! ### Wording -/

namespace Text

theorem isUnbroken_ofNat (n : Nat) : (ofNat n).IsUnbroken := by
  intro c hc hbreak
  have hdigit : 0x30 ≤ c.val ∧ c.val ≤ 0x39 := of_decide_eq_true (isDigit_of_mem_ofNat hc)
  obtain ⟨r, hr, hcr⟩ := List.any_eq_true.1 hbreak
  have hapart : ∀ r ∈ lineBreakRanges, r.2 < 0x30 ∨ 0x39 < r.1 := by decide
  simp only [Bool.and_eq_true, decide_eq_true_eq] at hcr
  have := hapart r hr
  omega

theorem isUnbroken_zeros (k : Nat) : (zeros k).IsUnbroken := by
  intro c hc
  rw [List.eq_of_mem_replicate hc]
  decide

end Text

theorem isUnbroken_signText (negative : Bool) : (signText negative).IsUnbroken := by
  cases negative <;> decide

theorem DecimalLayout.isUnbroken_plain {digits : Text} (h : digits.IsUnbroken) (exponent : Int) :
    (plain digits exponent).IsUnbroken := by
  unfold plain
  dsimp only
  split
  · exact (h.append (Text.isUnbroken_zeros _)).append (by decide)
  · split
    · refine Text.IsUnbroken.append (.append (h.subset fun _ => List.mem_of_mem_take) (by decide)) ?_
      exact h.subset fun _ => List.mem_of_mem_drop
    · exact .append (.append (by decide) (Text.isUnbroken_zeros _)) h

theorem DecimalLayout.isUnbroken_scientific (l : DecimalLayout) {digits : Text} (h : digits.IsUnbroken)
    (exponent : Int) : (l.scientific digits exponent).IsUnbroken := by
  have hpoint : Text.IsUnbroken (if digits.length ≤ 1 then [] else ".") := by split <;> decide
  have hmark : Text.IsUnbroken (if exponent < 0 then "e-" else "e+") := by split <;> decide
  have hfirst : Text.IsUnbroken (digits.take 1) := h.subset fun _ => List.mem_of_mem_take
  have hrest : Text.IsUnbroken (digits.drop 1) := h.subset fun _ => List.mem_of_mem_drop
  have hdigits := ((hfirst.append hpoint).append hrest).append hmark
  exact (hdigits.append (Text.isUnbroken_zeros _)).append (Text.isUnbroken_ofNat _)

theorem Double.isUnbroken_text (x : Double) : x.text.IsUnbroken := by
  cases x with
  | nan => decide
  | infinite negative => exact (isUnbroken_signText negative).append (by decide)
  | finite x =>
    refine (isUnbroken_signText x.negative).append ?_
    have hdigits := Text.isUnbroken_ofNat x.shortest.digits
    unfold DecimalLayout.text
    dsimp only
    split
    · exact DecimalLayout.isUnbroken_plain hdigits _
    · exact doubleLayout.isUnbroken_scientific hdigits _

theorem BoundError.isUnbroken_message (e : BoundError) : e.message.IsUnbroken := by
  cases e with
  | notFinite x => exact x.isUnbroken_text.append (by decide)
  | pastSingle x => exact x.isUnbroken_text.append (by decide)
  | integerPastSingle => decide
  | integerPastDouble => decide
  | literalTooLong =>
    have hcapacity : Text.IsUnbroken ("a literal has more than " ++ Text.ofNat literalCapacity) :=
      .append (by decide) (Text.isUnbroken_ofNat _)
    exact hcapacity.append (by decide)

theorem JsonKind.isUnbroken_withArticle (k : JsonKind) : k.withArticle.IsUnbroken := by
  cases k <;> decide

/-- Whatever is wrong is said on one line. -/
theorem Cause.isUnbroken_message (c : Cause) : c.message.IsUnbroken := by
  cases c with
  | notObject found => exact .append (by decide) found.isUnbroken_withArticle
  | missing field => exact .append (by decide) (Text.isUnbroken_quote field)
  | wrongKind field expected found =>
    have hfield : Text.IsUnbroken (field.quote ++ " should be ") :=
      (Text.isUnbroken_quote field).append (by decide)
    exact ((hfield.append expected.isUnbroken_withArticle).append (by decide)).append
      found.isUnbroken_withArticle
  | notInteger found => exact .append (by decide) found.isUnbroken_withArticle
  | notIntegral x => exact .append (by decide) x.isUnbroken_text
  | notNumber field found =>
    exact ((Text.isUnbroken_quote field).append (by decide)).append found.isUnbroken_withArticle
  | outOfRange field e =>
    exact ((Text.isUnbroken_quote field).append (by decide)).append e.isUnbroken_message
  | noEntries => decide
  | unsupported function => exact .append (by decide) (Text.isUnbroken_quote function)

/-! ### Paths -/

/-- The fields that the decoder asks for. -/
def Fields.known : List Text :=
  ["pools", "rolls", "entries", "min", "max", "type", "weight", "name", "functions", "function", "count"]

/-- The step leads to an item, or to a field that the decoder asks for. -/
def PathStep.IsKnown : PathStep → Prop
  | .field name => name ∈ Fields.known
  | .item _ => True

theorem PathStep.IsKnown.isUnbroken_text {step : PathStep} (h : step.IsKnown) :
    step.text.IsUnbroken := by
  have hfields : ∀ name ∈ Fields.known, Text.IsUnbroken ("/" ++ name) := by decide
  cases step with
  | field name => exact hfields name h
  | item index => exact .append (by decide) (Text.isUnbroken_ofNat index)

/-- All steps on the path of the defect are known. -/
def Defect.OnKnownPath (d : Defect) : Prop := ∀ step ∈ d.path, step.IsKnown

namespace Json

variable {v : Json} {d : Defect} {fields : Fields} {name : Text} {D : Json → Defect → Prop}

/-- The defects that `D` relates to values are on known paths. -/
abbrev OnKnownPaths (D : Json → Defect → Prop) : Prop := ∀ v d, D v d → d.OnKnownPath

theorem onKnownPath_here {cause : Cause} : (Defect.mk [] cause).OnKnownPath := List.forall_mem_nil _

theorem onKnownPaths_kindDefect {expected : JsonKind} : OnKnownPaths (KindDefect name expected) := by
  rintro v d ⟨-⟩
  exact onKnownPath_here

theorem onKnownPaths_integerDefect : OnKnownPaths IntegerDefect := by
  intro v d h
  cases h <;> exact onKnownPath_here

theorem onKnownPaths_boundDefect : OnKnownPaths (BoundDefect name) := by
  intro v d h
  cases h <;> exact onKnownPath_here

theorem InField.onKnownPath (h : InField fields name D d) (hname : name ∈ Fields.known)
    (hD : OnKnownPaths D) : d.OnKnownPath := by
  obtain ⟨-, h⟩ := h
  exact List.forall_mem_cons.2 ⟨hname, hD _ _ h⟩

theorem FieldDefect.onKnownPath (h : FieldDefect fields name D d) (hname : name ∈ Fields.known)
    (hD : OnKnownPaths D) : d.OnKnownPath := by
  cases h with
  | missing _ => exact onKnownPath_here
  | inside h => exact h.onKnownPath hname hD

theorem onKnownPaths_arrayDefect {α : Type} {P : Json → α → Prop} (hD : OnKnownPaths D) :
    OnKnownPaths (ArrayDefect name P D) := by
  intro v d h
  cases h with
  | kind h => exact onKnownPaths_kindDefect _ _ h
  | items h =>
    obtain ⟨-, h⟩ := h
    exact List.forall_mem_cons.2 ⟨trivial, hD _ _ h⟩

theorem RangeDefect.onKnownPath (h : RangeDefect fields d) : d.OnKnownPath := by
  cases h with
  | min h => exact h.onKnownPath (by decide) onKnownPaths_boundDefect
  | max _ _ h => exact h.onKnownPath (by decide) onKnownPaths_boundDefect

theorem onKnownPaths_rollDefect : OnKnownPaths RollDefect := by
  intro v d h
  cases h with
  | constant _ h => exact onKnownPaths_integerDefect _ _ h
  | uniform h => exact h.onKnownPath

theorem onKnownPaths_countDefect : OnKnownPaths CountDefect := by
  intro v d h
  cases h with
  | constant _ h => exact onKnownPaths_integerDefect _ _ h
  | type h => exact h.onKnownPath (by decide) onKnownPaths_kindDefect
  | unsupported _ _ => exact onKnownPath_here
  | uniform _ h => exact h.onKnownPath

theorem onKnownPaths_functionDefect : OnKnownPaths FunctionDefect := by
  intro v d h
  cases h with
  | notObject _ => exact onKnownPath_here
  | tag h => exact h.onKnownPath (by decide) onKnownPaths_kindDefect
  | count _ h => exact h.onKnownPath (by decide) onKnownPaths_countDefect
  | unsupported _ _ _ => exact onKnownPath_here

theorem onKnownPaths_entryDefect : OnKnownPaths EntryDefect := by
  intro v d h
  cases h with
  | notObject _ => exact onKnownPath_here
  | type h => exact h.onKnownPath (by decide) onKnownPaths_kindDefect
  | emptyWeight _ h => exact h.onKnownPath (by decide) onKnownPaths_integerDefect
  | name _ _ h => exact h.onKnownPath (by decide) onKnownPaths_kindDefect
  | weight _ _ _ h => exact h.onKnownPath (by decide) onKnownPaths_integerDefect
  | functions _ _ _ _ h =>
    exact h.onKnownPath (by decide) (onKnownPaths_arrayDefect onKnownPaths_functionDefect)

theorem onKnownPaths_poolDefect : OnKnownPaths PoolDefect := by
  intro v d h
  cases h with
  | notObject _ => exact onKnownPath_here
  | rolls h => exact h.onKnownPath (by decide) onKnownPaths_rollDefect
  | entries _ _ h =>
    exact h.onKnownPath (by decide) (onKnownPaths_arrayDefect onKnownPaths_entryDefect)
  | noEntries _ _ _ => exact List.forall_mem_singleton.2 (show _ ∈ Fields.known by decide)

theorem onKnownPaths_documentDefect : OnKnownPaths DocumentDefect := by
  intro v d h
  cases h with
  | notObject _ => exact onKnownPath_here
  | pools h => exact h.onKnownPath (by decide) (onKnownPaths_arrayDefect onKnownPaths_poolDefect)

end Json

/-! ### Messages -/

theorem isUnbroken_pathText {path : JsonPath} (h : ∀ step ∈ path, step.IsKnown) :
    (pathText path).IsUnbroken := by
  refine Text.IsUnbroken.append (by decide) fun c hc => ?_
  obtain ⟨step, hstep, hc⟩ := List.mem_flatMap.1 hc
  exact (h step hstep).isUnbroken_text c hc

namespace DecodeError

variable {e e' : DecodeError}

theorem message_ne_nil (e : DecodeError) : e.message ≠ [] := by
  unfold message
  exact List.append_ne_nil_of_left_ne_nil (List.append_ne_nil_of_right_ne_nil _ (List.cons_ne_nil _ _)) _

/-- A message on a known path is one line when the name of its table is. -/
theorem isUnbroken_message (hpath : e.OnKnownPath) (htable : e.table.IsUnbroken) :
    e.message.IsUnbroken := by
  have hplace := isUnbroken_pathText hpath
  have hlocation : Text.IsUnbroken
      (if e.table.isEmpty then pathText e.path else e.table ++ " " ++ pathText e.path) := by
    split
    · exact hplace
    · exact (htable.append (by decide)).append hplace
  exact (hlocation.append (by decide)).append e.cause.isUnbroken_message

/-- At the same place of the same table, messages tell unsupported functions apart. -/
theorem unsupported_inj {function function' : Text} (hcause : e.cause = .unsupported function)
    (hcause' : e'.cause = .unsupported function') (hpath : pathText e.path = pathText e'.path)
    (htable : e.table = e'.table) (h : e.message = e'.message) : function = function' := by
  unfold message at h
  rw [hpath, htable, hcause, hcause'] at h
  exact Text.quote_injective (List.append_cancel_left (List.append_cancel_left h))

end DecodeError

/-- When a document is refused under a name without line breaks, the message is one line, whatever texts are
in the document. Of unsupported functions at the same place of the same table no two have the same message,
for no two texts look the same in quotes. -/
theorem toTable_error_message :
    (∀ (v : Json) (name : Text) (e : DecodeError), name.IsUnbroken → v.toTable name = .error e →
      e.message.IsUnbroken ∧ e.message.lines = [e.message]) ∧
    (∀ (e e' : DecodeError) (function function' : Text), e.cause = .unsupported function →
      e'.cause = .unsupported function' → pathText e.path = pathText e'.path → e.table = e'.table →
      e.message = e'.message → function = function') ∧
    ∀ s t : Text, s.quote = t.quote → s = t := by
  refine ⟨fun v name e hname h => ?_, fun e e' function function' => DecodeError.unsupported_inj,
    fun s t => Text.quote_injective⟩
  obtain ⟨htable, hdefect⟩ := toTable_eq_error_iff.1 h
  have hpath := Json.onKnownPaths_documentDefect v _ hdefect
  have hmessage := e.isUnbroken_message hpath (htable ▸ hname)
  exact ⟨hmessage, hmessage.lines e.message_ne_nil⟩

/-- A tag with an apostrophe, a line feed, a line separator and a backslash. -/
def crookedTag : Text := "it's\n\u2028\\"

/-- The same tag as it is shown in quotes. -/
def straightTag : Text := "it's\\n\\u2028\\\\"

/-- A document with a function of this tag. -/
def taggedDocument (t : Text) : Json :=
  .object [("pools", .array [.object [("rolls", .number (.integer 1)), ("entries", .array [.object
    [("type", .string "minecraft:item"), ("name", .string "minecraft:book"),
      ("functions", .array [.object [("function", .string t)]])]])]])]

/-- What is wrong with it. -/
def taggedError (t : Text) : DecodeError :=
  ⟨⟨[.field "pools", .item 0, .field "entries", .item 0, .field "functions", .item 0], .unsupported t⟩,
    "BOOKS_CHEST"⟩

theorem crookedTag_error_message :
    (taggedDocument crookedTag).toTable "BOOKS_CHEST" = .error (taggedError crookedTag) ∧
      (taggedError crookedTag).message =
        "BOOKS_CHEST #/pools/0/entries/0/functions/0: unsupported loot function: \"it's\\n\\u2028\\\\\"" ∧
      (taggedError crookedTag).message.lines = [(taggedError crookedTag).message] ∧
      (taggedError crookedTag).message ≠ (taggedError straightTag).message ∧
      crookedTag.quote ≠ straightTag.quote := by
  obtain ⟨hline, hfunction, hquote⟩ := toTable_error_message
  have herror : (taggedDocument crookedTag).toTable "BOOKS_CHEST" = .error (taggedError crookedTag) := by
    decide +kernel
  have hdistinct : crookedTag ≠ straightTag := by decide
  have hmessage := hline _ _ _ (by decide) herror
  refine ⟨herror, by decide +kernel, hmessage.2, fun h => hdistinct ?_, fun h => hdistinct ?_⟩
  · exact hfunction (taggedError crookedTag) (taggedError straightTag) _ _ rfl rfl
      (by simp only [taggedError]) (by simp only [taggedError]) h
  · exact hquote crookedTag straightTag h

end LootTables
