import LootTables.Proofs.Settings.Fields

/-!
# The options of a configuration

The options are the six settings and the output section. An object that says something else too should
mean what its options say (`overridden`), but names that every configuration carries besides its options
take part in reading as well: the one under which it is written out, the one under which all settings are
stored together, and two that cannot be set.

`OthersIgnored` says which objects come to no harm. An object with none of the four names is among them
(`othersIgnored_of_plain`); one that stores all settings together is only if it stores what was there, says
the output section afterwards, and does not touch the writing.
-/

namespace LootTables

/-- The names of the options. -/
def optionNames : List Text := Setting.all.map Setting.name ++ [outputKey]

/-- The entries of an object that are options. -/
def options (fields : List (Text × Json)) : List (Text × Json) :=
  fields.filter fun field => field.1 ∈ optionNames

/-! ### What the options say -/

/-- The settings when nothing is said about them. -/
def settingDefaults : List (Text × Json) :=
  [("table_name_suffix", .string "_CHEST"), ("item_namespace", .string "minecraft"),
    ("max_depth", .number (.integer 3)), ("add_generation_comment", .bool false),
    ("java_package", .string []), ("java_class_name", .string [])]

/-- The output section when nothing is said about it. -/
def outputDefaults : List (Text × Json) := [(modeKey, .string "force"), (atomicWriteKey, .bool true)]

/-- The entries of a table, each with the value that an object has for it if it has one. -/
def replaced (table fields : List (Text × Json)) : List (Text × Json) :=
  table.map fun entry => (entry.1, (fields.lookup entry.1).getD entry.2)

/-- What an object says about the output section. -/
def outputParts (fields : List (Text × Json)) : List (Text × Json) :=
  match fields.lookup outputKey with
  | some (.object parts) => parts
  | _ => []

/-- The defaults, overridden by the options in an object. -/
def overridden (fields : List (Text × Json)) : Json :=
  .object (replaced settingDefaults fields ++
    [(outputKey, .object (replaced outputDefaults (outputParts fields)))])

/-- An output section, if there is one, is an object, and a mode in it is one of the words for modes. -/
def HasValidOutput (fields : List (Text × Json)) : Prop :=
  ∀ v, fields.lookup outputKey = some v → ∃ parts, v = .object parts ∧
    ∀ m, parts.lookup modeKey = some m → ∃ mode : OutputMode, m = .string mode.word

/-- What stands under the name of all settings is an object that gives every setting the value it has
anyway, unless it is set afterwards. -/
structure Restores (before : List (Text × Json)) (stored after : List (Text × Json)) : Prop where
  settings : ∀ s : Setting, s.name ∉ Assoc.keys after →
    (stored.lookup s.name).getD (({} : Config).get s) = (before.lookup s.name).getD (({} : Config).get s)
  /-- Stored as it is, an object is no output section. -/
  output : outputKey ∈ Assoc.keys after
  exporter : exportKey ∉ Assoc.keys stored ∧ exportKey ∉ Assoc.keys after

/-- The entries that are no options change nothing. -/
structure OthersIgnored (fields : List (Text × Json)) : Prop where
  noClass : ("__class__" : Text) ∉ Assoc.keys fields
  noReference : ("__weakref__" : Text) ∉ Assoc.keys fields
  noExporter : allSettingsKey ∉ Assoc.keys fields → exportKey ∉ Assoc.keys fields
  restores : ∀ before v after, fields = before ++ (allSettingsKey, v) :: after →
    ∃ stored, v = .object stored ∧ Restores before stored after

/-- Names that no configuration knows are ignored. -/
theorem othersIgnored_of_plain {fields : List (Text × Json)} (hplain : ∀ name ∈ Assoc.keys fields,
    name ≠ exportKey ∧ name ≠ allSettingsKey ∧ name ≠ "__class__" ∧ name ≠ "__weakref__") :
    OthersIgnored fields where
  noClass h := (hplain _ h).2.2.1 rfl
  noReference h := (hplain _ h).2.2.2 rfl
  noExporter _ h := (hplain _ h).1 rfl
  restores before v after h := by
    have hall : allSettingsKey ∈ Assoc.keys fields := by rw [h]; simp [Assoc.keys]
    exact absurd rfl (hplain _ hall).2.1

/-! ### Reading the options -/

section

variable {fields : List (Text × Json)} {name : Text} {c d : Config}

theorem mem_optionNames (s : Setting) : s.name ∈ optionNames :=
  List.mem_append_left _ (List.mem_map_of_mem s.mem_all)

theorem not_mem_wholeNames (h : name ∈ optionNames) : name ∉ Config.wholeNames := by
  have hnames : ∀ name ∈ optionNames, name ∉ Config.wholeNames := by decide
  exact hnames name h

theorem lookup_options (fields : List (Text × Json)) (name : Text) :
    (options fields).lookup name = if name ∈ optionNames then fields.lookup name else none := by
  induction fields with
  | nil => simp [options]
  | cons field rest ih =>
    rw [options, List.filter_cons, ← options]
    grind [Assoc.lookup_cons]

/-- The section that a valid object stands for. -/
theorem exists_readOutput {parts : List (Text × Json)}
    (hmode : ∀ m, parts.lookup modeKey = some m → ∃ mode : OutputMode, m = .string mode.word) :
    ∃ mode : OutputMode, (parts.lookup modeKey).getD (.string "force") = .string mode.word ∧
      readOutput? (.object parts) =
        some ⟨.known mode, (parts.lookup atomicWriteKey).getD (.bool true)⟩ := by
  unfold readOutput? OutputSettings.ofFields
  dsimp only
  cases hm : parts.lookup modeKey with
  | none => exact ⟨.force, rfl, rfl⟩
  | some m =>
    obtain ⟨mode, rfl⟩ := hmode m hm
    exact ⟨mode, rfl, by cases mode <;> rfl⟩

theorem isSome_readOutput (h : HasValidOutput fields) {v : Json} (hv : fields.lookup outputKey = some v) :
    (readOutput? v).isSome := by
  obtain ⟨parts, rfl, hmode⟩ := h v hv
  obtain ⟨mode, -, hsection⟩ := exists_readOutput hmode
  rw [hsection]
  rfl

/-- What is read from the options of an object. -/
theorem overlays_options_iff :
    ({} : Config).Overlays (options fields) c ↔
      (∀ s, c.get s = (fields.lookup s.name).getD (({} : Config).get s)) ∧
        c.output = ((fields.lookup outputKey).bind readOutput?).elim (.settings {}) .settings ∧
        c.exporter = none := by
  have hsetting : ∀ s : Setting, (options fields).lookup s.name = fields.lookup s.name := by
    intro s
    rw [lookup_options, if_pos (mem_optionNames s)]
  have houtput : (options fields).lookup outputKey = fields.lookup outputKey := by
    rw [lookup_options, if_pos (by decide)]
  have hexporter : (options fields).lookup exportKey = none := by
    rw [lookup_options, if_neg (by decide)]
  constructor
  · intro h
    refine ⟨fun s => (h.get s).trans (by rw [hsetting]), h.output.trans (by rw [houtput]), ?_⟩
    rw [h.exporter, hexporter]
    rfl
  · rintro ⟨hget, hout, hnone⟩
    refine ⟨fun s => (hget s).trans (by rw [hsetting]), hout.trans (by rw [houtput]), ?_⟩
    rw [hnone, hexporter]
    rfl

/-- What the options say is written, the defaults for what they do not say. -/
theorem toJson_of_overlays (h : ({} : Config).Overlays (options fields) c)
    (houtput : HasValidOutput fields) : c.toJson = .ok (overridden fields) := by
  obtain ⟨hget, hsection, hexporter⟩ := overlays_options_iff.1 h
  have hsettings : Setting.all.map (fun s => (s.name, c.get s)) = replaced settingDefaults fields := by
    rw [funext fun s => congrArg (Prod.mk s.name) (hget s)]
    rfl
  obtain ⟨mode, hmode, hc⟩ : ∃ mode : OutputMode,
      ((outputParts fields).lookup modeKey).getD (.string "force") = .string mode.word ∧
      c.output = .settings ⟨.known mode, ((outputParts fields).lookup atomicWriteKey).getD (.bool true)⟩ := by
    unfold outputParts
    rw [hsection]
    cases hv : fields.lookup outputKey with
    | none => exact ⟨.force, rfl, rfl⟩
    | some v =>
      obtain ⟨parts, rfl, hvalid⟩ := houtput v hv
      obtain ⟨mode, hmode, hparts⟩ := exists_readOutput hvalid
      exact ⟨mode, hmode, by rw [Option.bind_some, hparts]; rfl⟩
  refine Config.toJson_eq_ok_iff.2 ⟨mode, _, hexporter, hc, ?_⟩
  rw [hsettings, ← hmode]
  rfl

/-- The options of an object can be read. -/
theorem exists_ofJson_options (hkeys : (Assoc.keys fields).Nodup) (houtput : HasValidOutput fields) :
    ∃ d, Config.ofJson (.object (options fields)) = .ok d ∧
      ({} : Config).Overlays (options fields) d := by
  refine Config.foldlM_overlays {} (Assoc.nodup_filter hkeys) (fun key hkey => ?_) (fun v hv => ?_)
  · obtain ⟨field, hfield, rfl⟩ := List.mem_map.1 hkey
    exact not_mem_wholeNames (of_decide_eq_true (List.mem_filter.1 hfield).2)
  · rw [lookup_options, if_pos (by decide)] at hv
    exact isSome_readOutput houtput hv

/-! ### Reading the other entries -/

/-- Every entry of an object that is read is read over some configuration. -/
theorem exists_readField_of_mem (h : fields.foldlM (fun c field => c.readField field.1 field.2) c = .ok d)
    {field : Text × Json} (hmem : field ∈ fields) :
    ∃ c₁ c₂ : Config, c₁.readField field.1 field.2 = .ok c₂ := by
  obtain ⟨before, after, rfl⟩ := List.append_of_mem hmem
  rw [List.foldlM_append, bind_eq_ok_iff] at h
  obtain ⟨c₁, -, h⟩ := h
  rw [List.foldlM_cons, bind_eq_ok_iff] at h
  obtain ⟨c₂, hread, -⟩ := h
  exact ⟨c₁, c₂, hread⟩

/-- Two of the names are refused. -/
theorem not_mem_keys_of_read (h : Config.ofJson (.object fields) = .ok c) :
    ("__class__" : Text) ∉ Assoc.keys fields ∧ ("__weakref__" : Text) ∉ Assoc.keys fields := by
  constructor <;>
  · intro hmem
    obtain ⟨⟨name, v⟩, hfield, rfl⟩ := List.mem_map.1 hmem
    obtain ⟨c₁, c₂, hread⟩ := exists_readField_of_mem h hfield
    cases hread

/-- All settings together have to be an object. -/
theorem exists_object_of_read (h : Config.ofJson (.object fields) = .ok c) {v : Json}
    (hmem : (allSettingsKey, v) ∈ fields) : ∃ stored, v = .object stored := by
  obtain ⟨c₁, c₂, hread⟩ := exists_readField_of_mem h hmem
  cases v with
  | object stored => exact ⟨stored, rfl⟩
  | _ => cases hread

theorem elim_set (o : Option Json) (c : Config) (s : Setting) :
    o.elim c (c.set s) = c.set s (o.getD (c.get s)) := by
  cases o with
  | none => cases s <;> rfl
  | some v => rfl

/-- All settings stored together are the defaults, overridden. -/
theorem get_ofStored (stored : List (Text × Json)) (s : Setting) :
    (Config.ofStored stored).get s = (stored.lookup s.name).getD (({} : Config).get s) := by
  simp only [Config.ofStored, elim_set]
  cases s <;> rfl

/-- Entries none of which concerns the configuration as a whole are put over it. -/
theorem exists_overlays (c : Config) (hkeys : (Assoc.keys fields).Nodup) (houtput : HasValidOutput fields)
    (hclass : ("__class__" : Text) ∉ Assoc.keys fields)
    (hreference : ("__weakref__" : Text) ∉ Assoc.keys fields)
    (hall : allSettingsKey ∉ Assoc.keys fields) :
    ∃ c', fields.foldlM (fun c field => c.readField field.1 field.2) c = .ok c' ∧
      c.Overlays fields c' := by
  refine Config.foldlM_overlays c hkeys (fun key hkey hwhole => ?_) fun v => isSome_readOutput houtput
  simp only [Config.wholeNames, List.mem_cons, List.not_mem_nil, or_false] at hwhole
  rcases hwhole with rfl | rfl | rfl
  · exact hall hkey
  · exact hclass hkey
  · exact hreference hkey

section

variable {before after stored : List (Text × Json)} {v : Json}

theorem lookup_around (hname : name ≠ allSettingsKey) :
    (before ++ (allSettingsKey, v) :: after).lookup name = (before.lookup name).or (after.lookup name) := by
  rw [List.lookup_append, Assoc.lookup_cons, if_neg hname]

theorem nodup_around (hkeys : (Assoc.keys (before ++ (allSettingsKey, v) :: after)).Nodup) :
    (Assoc.keys before).Nodup ∧ (Assoc.keys after).Nodup ∧ allSettingsKey ∉ Assoc.keys before ∧
      allSettingsKey ∉ Assoc.keys after ∧ ∀ key ∈ Assoc.keys after, key ∉ Assoc.keys before := by
  simp only [Assoc.keys, List.map_append, List.map_cons, List.nodup_append, List.nodup_cons] at hkeys ⊢
  obtain ⟨hbefore, ⟨hall, hafter⟩, hdisjoint⟩ := hkeys
  refine ⟨hbefore, hafter, fun h => hdisjoint _ h _ List.mem_cons_self rfl, hall, fun key h h' => ?_⟩
  exact hdisjoint key h' key (List.mem_cons_of_mem _ h) rfl

theorem validOutput_around (hkeys : (Assoc.keys (before ++ (allSettingsKey, v) :: after)).Nodup)
    (houtput : HasValidOutput (before ++ (allSettingsKey, v) :: after)) :
    HasValidOutput before ∧ HasValidOutput after := by
  have hkey : outputKey ≠ allSettingsKey := by decide
  constructor
  · intro w hw
    exact houtput w (by rw [lookup_around hkey, hw]; rfl)
  · intro w hw
    obtain ⟨-, -, -, -, hdisjoint⟩ := nodup_around hkeys
    have hbefore : before.lookup outputKey = none := by
      refine Assoc.lookup_eq_none_iff_not_mem.2 (hdisjoint _ ?_)
      by_contra h
      cases (Assoc.lookup_eq_none_iff_not_mem.2 h).symm.trans hw
    exact houtput w (by rw [lookup_around hkey, hbefore, hw]; rfl)

/-- Where all settings are stored together, what was read before is forgotten. -/
theorem exists_ofJson_around
    (hkeys : (Assoc.keys (before ++ (allSettingsKey, .object stored) :: after)).Nodup)
    (houtput : HasValidOutput (before ++ (allSettingsKey, .object stored) :: after))
    (hclass : ("__class__" : Text) ∉ Assoc.keys (before ++ (allSettingsKey, .object stored) :: after))
    (hreference : ("__weakref__" : Text) ∉
      Assoc.keys (before ++ (allSettingsKey, .object stored) :: after)) :
    ∃ c, Config.ofJson (.object (before ++ (allSettingsKey, .object stored) :: after)) = .ok c ∧
      (Config.ofStored stored).Overlays after c := by
  obtain ⟨hbefore, hafter, hallBefore, hallAfter, -⟩ := nodup_around hkeys
  obtain ⟨hvalidBefore, hvalidAfter⟩ := validOutput_around hkeys houtput
  simp only [Assoc.keys, List.map_append, List.map_cons, List.mem_append, List.mem_cons, not_or]
    at hclass hreference
  obtain ⟨c₁, hread, -⟩ :=
    exists_overlays {} hbefore hvalidBefore hclass.1 hreference.1 hallBefore
  obtain ⟨c, hreads, hover⟩ := exists_overlays (Config.ofStored stored) hafter hvalidAfter
    hclass.2.2 hreference.2.2 hallAfter
  refine ⟨c, ?_, hover⟩
  unfold Config.ofJson
  dsimp only
  rw [List.foldlM_append, hread, ok_bind, List.foldlM_cons]
  exact bind_eq_ok_iff.2 ⟨Config.ofStored stored, rfl, hreads⟩

/-- What is read after all settings were stored together is what the options say exactly if the settings
were restored. -/
theorem overlays_options_iff_restores
    (hkeys : (Assoc.keys (before ++ (allSettingsKey, v) :: after)).Nodup)
    (houtput : HasValidOutput (before ++ (allSettingsKey, v) :: after))
    (hc : (Config.ofStored stored).Overlays after c) :
    ({} : Config).Overlays (options (before ++ (allSettingsKey, v) :: after)) c ↔
      Restores before stored after := by
  obtain ⟨-, -, -, -, hdisjoint⟩ := nodup_around hkeys
  have hafter : ∀ key ∈ Assoc.keys after, before.lookup key = none := fun key hkey =>
    Assoc.lookup_eq_none_iff_not_mem.2 (hdisjoint key hkey)
  have hsetting : ∀ s : Setting, s.name ≠ allSettingsKey := by intro s; cases s <;> decide
  have hvalid := (validOutput_around hkeys houtput).2
  rw [overlays_options_iff, lookup_around (by decide), hc.exporter, Option.or_eq_none_iff,
    Assoc.lookup_eq_none_iff_not_mem, hc.output]
  constructor
  · rintro ⟨hget, hsection, hexporter⟩
    refine ⟨fun s hs => ?_, ?_, (Assoc.lookup_eq_none_iff_not_mem.1 hexporter.2), hexporter.1⟩
    · have hs := Assoc.lookup_eq_none_iff_not_mem.2 hs
      have h := hget s
      rwa [hc.get, lookup_around (hsetting s), hs, Option.or_none, get_ofStored] at h
    · by_contra hno
      rw [Assoc.lookup_eq_none_iff_not_mem.2 hno, Option.or_none] at hsection
      have hne : ∀ (o : Option Json) (o' : Option OutputSettings),
          o.elim .missing .value ≠ o'.elim (OutputSection.settings {}) .settings := by
        intro o o'
        cases o <;> cases o' <;> exact nofun
      exact hne _ _ hsection
  · intro h
    refine ⟨fun s => ?_, ?_, h.exporter.2, Assoc.lookup_eq_none_iff_not_mem.2 h.exporter.1⟩
    · rw [hc.get, lookup_around (hsetting s), get_ofStored]
      by_cases hs : s.name ∈ Assoc.keys after
      · rw [hafter _ hs, Option.none_or]
        obtain ⟨w, hw⟩ := Option.ne_none_iff_exists'.1 (mt Assoc.lookup_eq_none_iff_not_mem.1 (not_not.2 hs))
        rw [hw]
        rfl
      · rw [Assoc.lookup_eq_none_iff_not_mem.2 hs, Option.or_none]
        exact h.settings s hs
    · rw [hafter _ h.output, Option.none_or]
      obtain ⟨w, hw⟩ :=
        Option.ne_none_iff_exists'.1 (mt Assoc.lookup_eq_none_iff_not_mem.1 (not_not.2 h.output))
      obtain ⟨s, hs⟩ := Option.isSome_iff_exists.1 (isSome_readOutput hvalid hw)
      rw [hw, Option.bind_some, hs]
      rfl

end

/-- Reading an object gives what its options say exactly if its other entries are harmless. -/
theorem ofJson_eq_options_iff (hkeys : (Assoc.keys fields).Nodup) (houtput : HasValidOutput fields)
    (hd : ({} : Config).Overlays (options fields) d) :
    Config.ofJson (.object fields) = .ok d ↔ OthersIgnored fields := by
  constructor
  · intro h
    obtain ⟨hclass, hreference⟩ := not_mem_keys_of_read h
    refine ⟨hclass, hreference, fun hall => ?_, ?_⟩
    · obtain ⟨c, hc, hover⟩ := exists_overlays {} hkeys houtput hclass hreference hall
      obtain rfl : c = d := Except.ok.inj (hc.symm.trans h)
      have hnone := hover.exporter.symm.trans (overlays_options_iff.1 hd).2.2
      exact Assoc.lookup_eq_none_iff_not_mem.1 (Option.or_eq_none_iff.1 hnone).1
    · rintro before v after rfl
      obtain ⟨stored, rfl⟩ := exists_object_of_read h (List.mem_append_right _ List.mem_cons_self)
      obtain ⟨c, hc, hover⟩ := exists_ofJson_around hkeys houtput hclass hreference
      obtain rfl : c = d := Except.ok.inj (hc.symm.trans h)
      exact ⟨stored, rfl, (overlays_options_iff_restores hkeys houtput hover).1 hd⟩
  · intro h
    by_cases hall : allSettingsKey ∈ Assoc.keys fields
    · obtain ⟨⟨_, v⟩, hmem, rfl⟩ := List.mem_map.1 hall
      obtain ⟨before, after, rfl⟩ := List.append_of_mem hmem
      obtain ⟨stored, rfl, hrestores⟩ := h.restores before v after rfl
      obtain ⟨c, hc, hover⟩ := exists_ofJson_around hkeys houtput h.noClass h.noReference
      obtain rfl := ((overlays_options_iff_restores hkeys houtput hover).2 hrestores).unique hd
      exact hc
    · obtain ⟨c, hc, hover⟩ := exists_overlays {} hkeys houtput h.noClass h.noReference hall
      have hoptions : ({} : Config).Overlays (options fields) c := by
        refine overlays_options_iff.2 ⟨hover.get, hover.output, ?_⟩
        rw [hover.exporter, Assoc.lookup_eq_none_iff_not_mem.2 (h.noExporter hall)]
        rfl
      obtain rfl := hoptions.unique hd
      exact hc

end

/-- What an object says besides its options. The options alone can always be read and written, and then
the defaults are written with the options put over them. Reading the whole object does the same exactly
if its other entries are harmless, and otherwise it gives another configuration, or none, and what is
written of it is not what the options say. -/
theorem other_names_ignored_iff (fields : List (Text × Json)) (hkeys : (Assoc.keys fields).Nodup)
    (houtput : HasValidOutput fields) :
    Config.ofJson (.object (options fields)) >>= Config.toJson = .ok (overridden fields) ∧
      (Config.ofJson (.object fields) = Config.ofJson (.object (options fields)) ↔
        OthersIgnored fields) ∧
      (Config.ofJson (.object fields) >>= Config.toJson = .ok (overridden fields) ↔
        OthersIgnored fields) := by
  obtain ⟨d, hread, hd⟩ := exists_ofJson_options hkeys houtput
  have hwrite := toJson_of_overlays hd houtput
  have hiff := ofJson_eq_options_iff hkeys houtput hd
  refine ⟨bind_eq_ok_iff.2 ⟨d, hread, hwrite⟩, by rw [hread, hiff], ?_⟩
  rw [← hiff, bind_eq_ok_iff]
  constructor
  · rintro ⟨c, hc, hwritten⟩
    -- What is written reads back as one configuration only.
    have hback := (Config.ofJson_toJson hwritten).symm.trans (Config.ofJson_toJson hwrite)
    rw [hc, Except.ok.inj hback]
  · intro h
    exact ⟨d, h, hwrite⟩

/-- An unknown name is ignored. -/
theorem other_names_ignored_unknown :
    Config.ofJson (.object [("unknown", .null), (outputKey, .object [(modeKey, .string "error")]),
        ("max_depth", .string "deep"), ("__doc__", .bool true)]) >>= Config.toJson =
      .ok (overridden [("unknown", .null), (outputKey, .object [(modeKey, .string "error")]),
        ("max_depth", .string "deep"), ("__doc__", .bool true)]) := by
  refine (other_names_ignored_iff _ (by decide) ?_).2.2.2 (othersIgnored_of_plain (by decide))
  intro v hv
  obtain rfl : Json.object [(modeKey, .string "error")] = v := Option.some.inj hv
  exact ⟨_, rfl, fun m hm => ⟨.errorIfExists, (Option.some.inj hm).symm⟩⟩

/-- An object with no options, and an entry under the name of writing a configuration, is read but not
written. -/
theorem exporter_not_ignored :
    ¬∀ fields : List (Text × Json), (Assoc.keys fields).Nodup → HasValidOutput fields →
      Config.ofJson (.object fields) >>= Config.toJson = .ok (overridden fields) := by
  intro h
  have hvalid : HasValidOutput [(exportKey, .number (.integer 5))] := by
    intro v hv
    cases hv
  have hwritten := h [(exportKey, .number (.integer 5))] (by decide) hvalid
  have hrefused : Config.ofJson (.object [(exportKey, .number (.integer 5))]) >>= Config.toJson =
      .error (.exportReplaced .integer) := by decide +kernel
  cases hrefused.symm.trans hwritten

end LootTables
