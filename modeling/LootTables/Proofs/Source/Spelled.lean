import LootTables.Proofs.Json.ReadBack
import LootTables.Proofs.Text.Utf8
import LootTables.Source

/-!
# Loading takes writing back

A file that spells a value is loaded as this value (`loadDocument_spelled`), however the value is
spelled: whatever its blanks and line endings are, and whichever escapes, digits and exponents its
strings and numbers are written with. A value has to be one that can be spelled, but for one thing: if
an object has a key more than once, the file is loaded as a value in which the last value of the key
stands where the key was written first.
-/

namespace LootTables

/-- The bytes spell the value: they encode the tokens of the value, with blanks around them. Containers
lie at most `depth` deep inside each other. -/
def Json.SpelledIn (v : Json) (depth : Nat) (bytes : Bytes) : Prop :=
  ∃ tokens s, Json.Written depth v tokens ∧ Json.Spaced tokens s ∧ Utf8.encode s = .ok bytes

section

variable {v : Json} {depth limit : Nat} {bytes : Bytes}

theorem Json.SpelledIn.read (h : v.SpelledIn depth bytes) (hdepth : depth ≤ limit) :
    ∃ s, Utf8.decode bytes = .ok s ∧ Json.read s.unifyNewlines limit = .ok v.lastKept := by
  obtain ⟨tokens, s, hwritten, hspaced, hbytes⟩ := h
  exact ⟨s, Utf8.decode_of_encode hbytes, Json.read_spaced hdepth hwritten hspaced⟩

theorem Json.SpelledIn.loadDocument (h : v.SpelledIn depth bytes) (hdepth : depth ≤ limit)
    {t : FileTree} {p : Path} (hfile : t.contentOf p = .ok bytes) :
    LootTables.loadDocument t p limit = .ok v.lastKept := by
  obtain ⟨s, hs, hread⟩ := h.read hdepth
  exact bind_eq_ok_iff.2 ⟨bytes, mapError_eq_ok_iff.2 hfile,
    bind_eq_ok_iff.2 ⟨s, mapError_eq_ok_iff.2 hs, mapError_eq_ok_iff.2 hread⟩⟩

end

/-- How deep containers may lie inside each other in a file that is certain to be read. -/
def spelledDepth : Nat := 500

/-- A file that spells a value is loaded as the value when its keys are distinct, wherever there is room
for its containers. In any case it is loaded as what is left of the value when each object keeps only the
last value of each key, where the key comes first, and then the keys are distinct. -/
theorem loadDocument_spelled {t : FileTree} {p : Path} {bytes : Bytes} {v : Json}
    (hfile : t.contentOf p = .ok bytes) (h : v.SpelledIn spelledDepth bytes) {limit : Nat}
    (hlimit : spelledDepth ≤ limit) :
    (v.HasDistinctKeys → loadDocument t p limit = .ok v) ∧
      loadDocument t p limit = .ok v.lastKept ∧ v.lastKept.HasDistinctKeys := by
  have hload := h.loadDocument hlimit hfile
  exact ⟨fun hkeys => hkeys.lastKept_eq ▸ hload, hload, v.hasDistinctKeys_lastKept⟩

/-! ### A document with a repeated key -/

/-- The double nearest to a tenth. -/
def tenth : Binary binary64 := ⟨false, 0x1999999999999A, -56, by decide⟩

/-- A tenth with an exponent. -/
def tenthText : Json.NumberText where
  negative := false
  whole := "1"
  fraction := "00"
  exponent := some ⟨'E', "-", "01", by decide, by decide, by decide, by decide⟩
  whole_ne_nil := by decide
  whole_isDigit := by decide
  whole_zero := by decide
  fraction_isDigit := by decide

/-- Minus twelve in digits. -/
def minusTwelveText : Json.NumberText := .ofInt (-12)

/-- A string of a letter past ASCII, a code point with two units, and half a pair. -/
def mixedString : Text := [.ofNat 0xE9, .ofNat 0x1F600, .ofNat 0xD83D]

/-- What is written. -/
def repeatedDocument : Json :=
  .object [("a", .array [.number (.double (.finite tenth)), .number (.integer (-12))]),
    ("b", .null), ("a", .string mixedString)]

/-- How it is written, from token to token. The second key is spelled with an escape. -/
def repeatedTokens : List Text :=
  ["\x7b", "\x22a\x22", ":", "[", tenthText.text, ",", minusTwelveText.text, "]", ",", "\x22b\x22", ":",
    "null", ",", "\x22\\u0061\x22", ":", "\x22é\\ud83d\\uDE00\\uD83d\x22", "\x7d"]

/-- Its text, with line endings of three kinds and other blanks. -/
def repeatedText : Text :=
  "\r\n" ++ ("\x7b" ++ ("" ++ ("\x22a\x22" ++ (" " ++ (":" ++ ("\t" ++ ("[" ++ ("\n" ++
    (tenthText.text ++ ("\r" ++ ("," ++ ("" ++ (minusTwelveText.text ++ (" " ++ ("]" ++ ("" ++ (","
    ++ ("\r\r\n" ++ ("\x22b\x22" ++ ("" ++ (":" ++ ("" ++ ("null" ++ ("" ++ ("," ++ ("" ++
    ("\x22\\u0061\x22" ++ ("" ++ (":" ++ ("" ++ ("\x22é\\ud83d\\uDE00\\uD83d\x22" ++ ("" ++ ("\x7d"
    ++ "\n")))))))))))))))))))))))))))))))))

theorem repeatedDocument_loads :
    ∃ bytes t p, FileTree.contentOf t p = .ok bytes ∧ repeatedDocument.SpelledIn spelledDepth bytes ∧
      loadDocument t p ({} : Limits).documents =
        .ok (.object [("a", .string mixedString), ("b", .null)]) := by
  have hspaced : Json.Spaced repeatedTokens repeatedText := by
    unfold repeatedTokens repeatedText
    repeat refine .cons (by decide) ?_
    exact .nil (by decide)
  have htenth : tenthText.Spells (.double (.finite tenth)) := by
    have hround := (Double.ofDecimal_eq_finite_iff (d := tenthText.decimal) (x := tenth)).1
      (by decide +kernel : Double.ofDecimal false tenthText.decimal = _)
    rw [tenthText.value_decimal] at hround
    exact ⟨by decide, hround⟩
  have hminus : minusTwelveText.Spells (.integer (-12)) := Json.NumberText.spells_ofInt (by decide)
  have hhigh : Json.UnitText 0xD83D "\\ud83d" :=
    .digits (a := 0xD) (b := 8) (c := 3) (d := 0xD) (.inl rfl) (.inl rfl) (.inl rfl) (.inl rfl)
  have hhigh' : Json.UnitText 0xD83D "\\uD83d" :=
    .digits (a := 0xD) (b := 8) (c := 3) (d := 0xD) (.inr rfl) (.inl rfl) (.inl rfl) (.inl rfl)
  have hlow : Json.UnitText 0xDE00 "\\uDE00" :=
    .digits (a := 0xD) (b := 0xE) (c := 0) (d := 0) (.inr rfl) (.inr rfl) (.inl rfl) (.inl rfl)
  have hletter : Json.UnitText 0x61 "\\u0061" :=
    .digits (a := 0) (b := 0) (c := 6) (d := 1) (.inl rfl) (.inl rfl) (.inl rfl) (.inl rfl)
  have ha : Json.StringText "a" "\x22a\x22" := Json.stringText_raw (by decide) (by decide)
  have hb : Json.StringText "b" "\x22b\x22" := Json.stringText_raw (by decide) (by decide)
  have ha' : Json.StringText "a" "\x22\\u0061\x22" :=
    ⟨by decide, ["\\u0061"], .cons (.unit hletter) .nil, rfl⟩
  have hmixed : Json.StringText mixedString "\x22é\\ud83d\\uDE00\\uD83d\x22" :=
    ⟨by decide, ["é", "\\ud83d\\uDE00", "\\uD83d"],
      .cons (.raw (by decide) (by decide) (by decide))
        (.cons (.pair hhigh hlow ⟨by decide, by decide, by decide⟩) (.cons (.unit hhigh') .nil)), rfl⟩
  have hitems : List.Forall₂ (Json.Written 0)
      [.number (.double (.finite tenth)), .number (.integer (-12))]
      [[tenthText.text], [minusTwelveText.text]] :=
    .cons ⟨_, .number htenth, rfl⟩ (.cons ⟨_, .number hminus, rfl⟩ .nil)
  have harray : Json.Written 1 _ ["[", tenthText.text, ",", minusTwelveText.text, "]"] :=
    Json.WrittenWith.array hitems
  have hnull : Json.Written 1 .null ["null"] := Json.WrittenWith.scalar .null
  have hstring : Json.Written 1 (.string mixedString) _ := Json.WrittenWith.scalar (.string hmixed)
  have hobject : Json.Written 2 repeatedDocument repeatedTokens :=
    Json.WrittenWith.object
      (.cons (.field ha harray) (.cons (.field hb hnull) (.cons (.field ha' hstring) .nil)))
  have hwritten : Json.Written spelledDepth repeatedDocument repeatedTokens :=
    hobject.mono (by decide)
  obtain ⟨bytes, hbytes⟩ : ∃ bytes, Utf8.encode repeatedText = .ok bytes :=
    exists_eq_ok_of_isSome (by decide +kernel)
  have hspelled : repeatedDocument.SpelledIn spelledDepth bytes := ⟨_, _, hwritten, hspaced, hbytes⟩
  have hfile : ((FileTree.empty []).put ["loot.json"] (.file bytes)).contentOf ⟨.root, ["loot.json"]⟩ =
      .ok bytes := rfl
  exact ⟨bytes, _, _, hfile, hspelled, (loadDocument_spelled hfile hspelled (by decide)).2.1⟩

end LootTables
