import LootTables.Config
import LootTables.Proofs.Result

/-!
# Reading and writing settings

A configuration is its six settings, its output section and its exporter (`Config.ext_get`). Reading an
entry sets one of them, or none (`Config.readField_overlays`), and so reading a whole object puts its
entries over the configuration that is there (`Config.foldlM_overlays`), as long as no entry replaces or
refuses the configuration as a whole.

What is written names each setting once. So the configuration that is read back from it is the one that
was written (`Config.ofJson_toJson`), wherever this one came from.
-/

namespace LootTables

namespace Setting

variable {name : Text} {s : Setting}

theorem mem_all (s : Setting) : s ∈ all := by cases s <;> decide

theorem name_injective {s s' : Setting} (h : s.name = s'.name) : s = s' := by
  have hdistinct : ∀ s ∈ all, ∀ s' ∈ all, s.name = s'.name → s = s' := by decide
  exact hdistinct s s.mem_all s' s'.mem_all h

theorem ofName?_name (s : Setting) : ofName? s.name = some s := by cases s <;> decide

theorem ofName?_eq_some_iff : ofName? name = some s ↔ s.name = name := by
  constructor
  · intro h
    exact of_decide_eq_true (List.find?_some (p := fun s : Setting => decide (s.name = name)) h)
  · rintro rfl
    exact s.ofName?_name

theorem name_ne_outputKey (s : Setting) : s.name ≠ outputKey := by cases s <;> decide

theorem name_ne_exportKey (s : Setting) : s.name ≠ exportKey := by cases s <;> decide

end Setting

/-- The output section that a value stands for, if it stands for one. -/
def readOutput? : Json → Option OutputSettings
  | .object parts => (OutputSettings.ofFields parts).toOption
  | _ => none

namespace Config

variable {c c' d : Config} {fields : List (Text × Json)} {name : Text} {v : Json}

/-! ### Parts of a configuration -/

theorem get_set (c : Config) (s s' : Setting) (v : Json) :
    (c.set s v).get s' = if s' = s then v else c.get s' := by
  cases s <;> cases s' <;> rfl

theorem output_set (c : Config) (s : Setting) (v : Json) : (c.set s v).output = c.output := by
  cases s <;> rfl

theorem exporter_set (c : Config) (s : Setting) (v : Json) : (c.set s v).exporter = c.exporter := by
  cases s <;> rfl

theorem ext_get (hget : ∀ s, c.get s = d.get s) (houtput : c.output = d.output)
    (hexporter : c.exporter = d.exporter) : c = d := by
  cases c
  cases d
  rw [Config.mk.injEq]
  exact ⟨hget .tableNameSuffix, hget .itemNamespace, hget .maxDepth, hget .generationComment,
    hget .packageName, hget .className, houtput, hexporter⟩

/-! ### Reading -/

/-- The names of entries that do not set a part of the configuration, but replace or refuse it as a
whole. -/
def wholeNames : List Text := [allSettingsKey, "__class__", "__weakref__"]

/-- The configuration `c'` is `c` with the entries of an object put over it. -/
structure Overlays (c : Config) (fields : List (Text × Json)) (c' : Config) : Prop where
  get : ∀ s : Setting, c'.get s = (fields.lookup s.name).getD (c.get s)
  output : c'.output = ((fields.lookup outputKey).bind readOutput?).elim c.output .settings
  exporter : c'.exporter = (fields.lookup exportKey).or c.exporter

theorem Overlays.unique (h : c.Overlays fields c') (h' : c.Overlays fields d) : c' = d :=
  ext_get (fun s => (h.get s).trans (h'.get s).symm) (h.output.trans h'.output.symm)
    (h.exporter.trans h'.exporter.symm)

theorem overlays_nil (c : Config) : c.Overlays [] c := ⟨fun _ => rfl, rfl, rfl⟩

/-- Entries are put over the configuration one by one. -/
theorem Overlays.cons (h : c.Overlays [(name, v)] c') (hrest : c'.Overlays fields d)
    (hfresh : fields.lookup name = none) : c.Overlays ((name, v) :: fields) d := by
  have hlookup : ∀ key, ((name, v) :: fields).lookup key =
      (fields.lookup key).or ([(name, v)].lookup key) := by
    intro key
    rw [Assoc.lookup_cons, Assoc.lookup_cons]
    by_cases hkey : key = name
    · rw [hkey, if_pos rfl, if_pos rfl, hfresh]
      rfl
    · rw [if_neg hkey, if_neg hkey]
      cases fields.lookup key <;> rfl
  refine ⟨fun s => ?_, ?_, ?_⟩
  · rw [hrest.get, h.get, hlookup]
    cases fields.lookup s.name <;> rfl
  · rw [hrest.output, h.output, hlookup]
    cases hkey : fields.lookup outputKey with
    | none => rfl
    | some w =>
      -- The name of the section occurs once, so the section was not set before.
      have hname : outputKey ≠ name := by
        rintro rfl
        cases hfresh.symm.trans hkey
      rw [Assoc.lookup_cons, if_neg hname]
      cases readOutput? w <;> rfl
  · rw [hrest.exporter, h.exporter, hlookup]
    cases fields.lookup exportKey <;> rfl

theorem readField_name (c : Config) (s : Setting) (v : Json) :
    c.readField s.name v = .ok (c.set s v) := by
  unfold readField store
  rw [if_neg s.name_ne_outputKey, s.ofName?_name]

/-- One entry sets what it names, if it names anything. -/
theorem readField_overlays (c : Config) (hname : name ∉ wholeNames)
    (houtput : name = outputKey → (readOutput? v).isSome) :
    ∃ c', c.readField name v = .ok c' ∧ c.Overlays [(name, v)] c' := by
  cases hsetting : Setting.ofName? name with
  | some s =>
    obtain rfl := Setting.ofName?_eq_some_iff.1 hsetting
    refine ⟨c.set s v, c.readField_name s v, fun s' => ?_, ?_, ?_⟩
    · rw [get_set, Assoc.lookup_cons]
      by_cases hs : s' = s
      · rw [hs, if_pos rfl, if_pos rfl]
        rfl
      · rw [if_neg hs, if_neg (mt Setting.name_injective hs)]
        rfl
    · rw [output_set, Assoc.lookup_cons, if_neg s.name_ne_outputKey.symm]
      rfl
    · rw [exporter_set, Assoc.lookup_cons, if_neg s.name_ne_exportKey.symm]
      rfl
  | none =>
    have hother : ∀ s : Setting, [(name, v)].lookup s.name = none := by
      intro s
      rw [Assoc.lookup_cons, if_neg]
      · rfl
      · intro hs
        cases (Setting.ofName?_eq_some_iff.2 hs).symm.trans hsetting
    have hget : ∀ c' : Config, (∀ s, c'.get s = c.get s) →
        ∀ s : Setting, c'.get s = ([(name, v)].lookup s.name).getD (c.get s) := by
      intro c' h s
      rw [hother s]
      exact h s
    unfold readField store
    split
    · next hkey =>
      subst hkey
      obtain ⟨s, hs⟩ := Option.isSome_iff_exists.1 (houtput rfl)
      unfold readOutput? at hs
      split at hs
      · next parts =>
        have hparts : OutputSettings.ofFields parts = .ok s := by
          cases h : OutputSettings.ofFields parts with
          | error e => rw [h] at hs; cases hs
          | ok s' => rw [h] at hs; cases hs; rfl
        refine ⟨{ c with output := .settings s }, ?_, hget _ fun _ => rfl, ?_, rfl⟩
        · dsimp only
          rw [hparts]
          rfl
        · rw [Assoc.lookup_cons, if_pos rfl]
          simp [readOutput?, hparts, Except.toOption]
      · cases hs
    · next hkey =>
      rw [hsetting]
      dsimp only
      have hsection : [(name, v)].lookup outputKey = none := by
        rw [Assoc.lookup_cons, if_neg (Ne.symm hkey)]
        rfl
      split
      · next hexport =>
        refine ⟨{ c with exporter := some v }, rfl, hget _ fun _ => rfl, ?_, ?_⟩
        · rw [hsection]
          rfl
        · rw [hexport, Assoc.lookup_cons, if_pos rfl]
          rfl
      · next hexport =>
        simp only [wholeNames, List.mem_cons, List.not_mem_nil, or_false, not_or] at hname
        obtain ⟨hall, hclass, hreference⟩ := hname
        rw [if_neg hall, if_neg hclass, if_neg hreference]
        refine ⟨c, rfl, hget c fun _ => rfl, ?_, ?_⟩
        · rw [hsection]
          rfl
        · rw [Assoc.lookup_cons, if_neg (Ne.symm hexport)]
          rfl

/-- Reading the entries of an object puts them over the configuration. -/
theorem foldlM_overlays (c : Config) (hkeys : (Assoc.keys fields).Nodup)
    (hnames : ∀ key ∈ Assoc.keys fields, key ∉ wholeNames)
    (houtput : ∀ v, fields.lookup outputKey = some v → (readOutput? v).isSome) :
    ∃ c', fields.foldlM (fun c field => c.readField field.1 field.2) c = .ok c' ∧
      c.Overlays fields c' := by
  induction fields generalizing c with
  | nil => exact ⟨c, rfl, c.overlays_nil⟩
  | cons field fields ih =>
    obtain ⟨name, v⟩ := field
    obtain ⟨hfresh, hkeys⟩ := List.nodup_cons.1 hkeys
    obtain ⟨hname, hnames⟩ := List.forall_mem_cons.1 hnames
    have hnone : fields.lookup name = none := Assoc.lookup_eq_none_iff_not_mem.2 hfresh
    have hfirst : name = outputKey → (readOutput? v).isSome := by
      rintro rfl
      exact houtput v (by rw [Assoc.lookup_cons, if_pos rfl])
    have hrest : ∀ w, fields.lookup outputKey = some w → (readOutput? w).isSome := by
      intro w hw
      refine houtput w ?_
      rw [Assoc.lookup_cons, if_neg, hw]
      rintro rfl
      cases hnone.symm.trans hw
    obtain ⟨c₁, hread, hover⟩ := c.readField_overlays hname hfirst
    obtain ⟨c', hreads, hovers⟩ := ih c₁ hkeys hnames hrest
    refine ⟨c', ?_, hover.cons hovers hnone⟩
    rw [List.foldlM_cons]
    exact bind_eq_ok_iff.2 ⟨c₁, hread, hreads⟩

/-! ### Writing -/

/-- What is written of a configuration, and which configurations can be written. -/
theorem toJson_eq_ok_iff :
    c.toJson = .ok v ↔ ∃ mode atomicWrite, c.exporter = none ∧
      c.output = .settings ⟨.known mode, atomicWrite⟩ ∧
      v = .object (Setting.all.map (fun s => (s.name, c.get s)) ++
        [(outputKey, .object [(modeKey, .string mode.word), (atomicWriteKey, atomicWrite)])]) := by
  unfold toJson
  cases c.exporter with
  | some w => simp
  | none =>
    dsimp only
    rw [bind_eq_ok_iff]
    constructor
    · rintro ⟨output, houtput, h⟩
      unfold OutputSection.toJson at houtput
      split at houtput
      · next mode atomicWrite hc =>
        cases houtput
        exact ⟨mode, atomicWrite, rfl, hc, (pure_eq_ok_iff.1 h).symm⟩
      · cases houtput
      · cases houtput
      · cases houtput
    · rintro ⟨mode, atomicWrite, -, hc, rfl⟩
      rw [hc]
      exact ⟨_, rfl, rfl⟩

/-- The settings of one configuration, read into another one. -/
theorem foldlM_settings (c d : Config) (ss : List Setting) :
    (ss.map fun s => (s.name, c.get s)).foldlM (fun c field => c.readField field.1 field.2) d =
      .ok (ss.foldl (fun d s => d.set s (c.get s)) d) := by
  induction ss generalizing d with
  | nil => rfl
  | cons s ss ih =>
    rw [List.map_cons, List.foldlM_cons, readField_name]
    exact ih (d.set s (c.get s))

/-- A configuration that is written is the one that is read back. -/
theorem ofJson_toJson (h : c.toJson = .ok v) : ofJson v = .ok c := by
  obtain ⟨mode, atomicWrite, hexporter, houtput, rfl⟩ := toJson_eq_ok_iff.1 h
  unfold ofJson
  dsimp only
  rw [List.foldlM_append, foldlM_settings]
  have hsettings : Setting.all.foldl (fun d s => d.set s (c.get s)) ({} : Config) =
      { c with output := .settings {}, exporter := none } := rfl
  have hparts : OutputSettings.ofFields
      [(modeKey, .string mode.word), (atomicWriteKey, atomicWrite)] = .ok ⟨.known mode, atomicWrite⟩ := by
    cases mode <;> rfl
  have hfield : ∀ d : Config, d.readField outputKey
      (.object [(modeKey, .string mode.word), (atomicWriteKey, atomicWrite)]) =
        .ok { d with output := .settings ⟨.known mode, atomicWrite⟩ } := by
    intro d
    unfold readField
    rw [if_pos rfl]
    dsimp only
    rw [hparts]
    rfl
  rw [hsettings, ok_bind, List.foldlM_cons, hfield, ok_bind, List.foldlM_nil, pure_eq_ok_iff]
  refine ext_get (fun _ => rfl) houtput.symm hexporter.symm

end Config

/-- Settings round trip. Whatever was read, a configuration that can be written is read back as it is from
what was written, so that writing it again gives the same. All seven parts are written, whether they
were given or left at their defaults. -/
theorem settings_round_trip (given written : Json)
    (h : Config.ofJson given >>= Config.toJson = .ok written) :
    Config.ofJson written = Config.ofJson given ∧
      Config.ofJson written >>= Config.toJson = .ok written ∧
      ∃ c mode atomicWrite, Config.ofJson given = .ok c ∧
        c.output = .settings ⟨.known mode, atomicWrite⟩ ∧
        written = .object (Setting.all.map (fun s => (s.name, c.get s)) ++
          [(outputKey, .object [(modeKey, .string mode.word), (atomicWriteKey, atomicWrite)])]) := by
  obtain ⟨c, hread, hwrite⟩ := bind_eq_ok_iff.1 h
  have hback := Config.ofJson_toJson hwrite
  obtain ⟨mode, atomicWrite, -, houtput, hwritten⟩ := Config.toJson_eq_ok_iff.1 hwrite
  exact ⟨hback.trans hread.symm, bind_eq_ok_iff.2 ⟨c, hback, hwrite⟩, c, mode, atomicWrite, hread, houtput,
    hwritten⟩

/-- An object with an unknown name, values of unexpected kinds and half of an output section. -/
theorem settings_round_trip_partial :
    ∃ written, Config.ofJson (.object [("max_depth", .null), ("unknown", .array [.bool true]),
        (outputKey, .object [(modeKey, .string "error")]), ("java_package", .number (.integer 5))]) >>=
          Config.toJson = .ok written ∧
      Config.ofJson written >>= Config.toJson = .ok written := by
  refine ⟨.object [("table_name_suffix", .string "_CHEST"), ("item_namespace", .string "minecraft"),
    ("max_depth", .null), ("add_generation_comment", .bool false),
    ("java_package", .number (.integer 5)), ("java_class_name", .string []),
    (outputKey, .object [(modeKey, .string "error"), (atomicWriteKey, .bool true)])], ?read,
    (settings_round_trip _ _ ?read).2.1⟩
  decide +kernel

end LootTables
