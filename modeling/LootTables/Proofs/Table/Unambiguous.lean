import LootTables.Proofs.Number.Literal
import LootTables.Proofs.Text.Upper
import LootTables.Table.Render

/-!
# Declarations can be read back

The declarations of some tables show what the tables consist of: two lists of tables have the same
declarations only if they are `Alike`, that is equal but for what a declaration does not show, the
case of names, the namespace of items and the digits of a bound that its literal leaves out.

The text is taken apart from the left, level by level. At each level the lemma says that two texts
which begin with an item, and whose rests begin with what may follow an item, begin with alike items
and have the same rest. What may follow is different for each level, since the same separators occur
at several of them: an entry is followed by a comma or by the parenthesis that closes its pool, and
the functions of an entry stop there because each begins with another mark.
-/

namespace LootTables

/-! ## What declarations show -/

/-- The numbers have the same literal. -/
def Number.Alike (a b : Number) : Prop := ∃ l, a.literal = .ok l ∧ b.literal = .ok l

inductive Roll.Alike : Roll → Roll → Prop
  | constant (n : Int) : Alike (.constant n) (.constant n)
  | uniform {min max min' max' : Number} (hmin : min.Alike min') (hmax : max.Alike max') :
      Alike (.uniform min max) (.uniform min' max')

inductive LootFunction.Alike : LootFunction → LootFunction → Prop
  | constantCount (n : Int) : Alike (.constantCount n) (.constantCount n)
  | uniformCount {min max min' max' : Number} (hmin : min.Alike min') (hmax : max.Alike max') :
      Alike (.uniformCount min max) (.uniformCount min' max')
  | marker (m : Marker) : Alike (.marker m) (.marker m)
  | bare : Alike .bare .bare

/-- Entries with the same weight; items with the same constant and alike functions. -/
inductive Entry.Alike (itemNamespace : Text) : Entry → Entry → Prop
  | empty (weight : Int) : Alike itemNamespace (.empty weight) (.empty weight)
  | item {name name' : Text} (weight : Int) {functions functions' : List LootFunction}
      (hname : itemConstant itemNamespace name = itemConstant itemNamespace name')
      (hfunctions : List.Forall₂ LootFunction.Alike functions functions') :
      Alike itemNamespace (.item name weight functions) (.item name' weight functions')

structure LootPool.Alike (itemNamespace : Text) (pool pool' : LootPool) : Prop where
  rolls : pool.rolls.Alike pool'.rolls
  entries : List.Forall₂ (Entry.Alike itemNamespace) pool.entries pool'.entries

structure LootTable.Alike (itemNamespace : Text) (table table' : LootTable) : Prop where
  name : table.name.upper = table'.name.upper
  pools : List.Forall₂ (LootPool.Alike itemNamespace) table.pools table'.pools

/-! ## Integers and bounds -/

/-- The marks after an argument. -/
def argumentEnds : List CodePoint := [',', ')']

theorem renderInteger_eq_ok_iff {n : Int} {s : Text} :
    renderInteger n = .ok s ↔ n.natAbs < 10 ^ numeralLimit ∧ s = Text.ofInt n :=
  mapError_eq_ok_iff.trans writeNumeral_eq_ok_iff

theorem renderInteger_determines {n n' : Int} {a a' r r' : Text} (ha : renderInteger n = .ok a)
    (ha' : renderInteger n' = .ok a') (hr : r.BeginsWith argumentEnds)
    (hr' : r'.BeginsWith argumentEnds) (h : a ++ r = a' ++ r') : n = n' ∧ r = r' := by
  obtain ⟨-, rfl⟩ := renderInteger_eq_ok_iff.1 ha
  obtain ⟨-, rfl⟩ := renderInteger_eq_ok_iff.1 ha'
  obtain ⟨hn, hrest⟩ := Text.append_inj_of_avoids (Text.avoids_ofInt (by decide) n)
    (Text.avoids_ofInt (by decide) n') hr hr' h
  exact ⟨Text.ofInt_injective hn, hrest⟩

theorem literal_determines {n n' : Number} {a a' r r' : Text} (ha : n.literal = .ok a)
    (ha' : n'.literal = .ok a') (hr : r.BeginsWith argumentEnds)
    (hr' : r'.BeginsWith argumentEnds) (h : a ++ r = a' ++ r') : n.Alike n' ∧ r = r' := by
  obtain ⟨rfl, hrest⟩ := Text.append_inj_of_avoids (Number.avoids_literal ha (by decide))
    (Number.avoids_literal ha' (by decide)) hr hr' h
  exact ⟨⟨a, ha, ha'⟩, hrest⟩

theorem renderBounds_determines {min max min' max' : Number} {a a' r r' : Text}
    (ha : renderBounds min max = .ok a) (ha' : renderBounds min' max' = .ok a')
    (hr : r.BeginsWith argumentEnds) (hr' : r'.BeginsWith argumentEnds) (h : a ++ r = a' ++ r') :
    min.Alike min' ∧ max.Alike max' ∧ r = r' := by
  obtain ⟨low, hlow, ha⟩ := bind_eq_ok_iff.1 ha
  obtain ⟨high, hhigh, ha⟩ := bind_eq_ok_iff.1 ha
  obtain ⟨low', hlow', ha'⟩ := bind_eq_ok_iff.1 ha'
  obtain ⟨high', hhigh', ha'⟩ := bind_eq_ok_iff.1 ha'
  obtain rfl := pure_eq_ok_iff.1 ha
  obtain rfl := pure_eq_ok_iff.1 ha'
  rw [List.append_assoc, List.append_assoc, List.append_assoc, List.append_assoc] at h
  have hcomma : ∀ s : Text, ((", " : Text) ++ s).BeginsWith argumentEnds :=
    fun s => Text.beginsWith_cons (by decide) _
  obtain ⟨hmin, h⟩ := literal_determines (mapError_eq_ok_iff.1 hlow) (mapError_eq_ok_iff.1 hlow')
    (hcomma _) (hcomma _) h
  obtain ⟨hmax, hrest⟩ := literal_determines (mapError_eq_ok_iff.1 hhigh)
    (mapError_eq_ok_iff.1 hhigh') hr hr' (List.append_cancel_left h)
  exact ⟨hmin, hmax, hrest⟩

/-! ## Rolls and functions -/

/-- An argument list is closed by a parenthesis. -/
theorem beginsWith_close (r : Text) : ((")" : Text) ++ r).BeginsWith argumentEnds :=
  Text.beginsWith_cons (by decide) r

theorem Roll.render_determines {x x' : Roll} {a a' r r' : Text} (ha : x.render = .ok a)
    (ha' : x'.render = .ok a') (h : a ++ r = a' ++ r') : x.Alike x' ∧ r = r' := by
  cases x with
  | misplaced kind => cases ha
  | constant n =>
    obtain ⟨s, hs, ha⟩ := bind_eq_ok_iff.1 ha
    obtain rfl := pure_eq_ok_iff.1 ha
    cases x' with
    | misplaced kind => cases ha'
    | constant n' =>
      obtain ⟨s', hs', ha'⟩ := bind_eq_ok_iff.1 ha'
      obtain rfl := pure_eq_ok_iff.1 ha'
      simp only [List.append_assoc] at h
      obtain ⟨rfl, hrest⟩ := renderInteger_determines hs hs' (beginsWith_close r)
        (beginsWith_close r') (List.append_cancel_left h)
      exact ⟨.constant n, List.append_cancel_left hrest⟩
    | uniform min max =>
      -- The two kinds of rolls are constructed under different names.
      obtain ⟨s', -, ha'⟩ := bind_eq_ok_iff.1 ha'
      obtain rfl := pure_eq_ok_iff.1 ha'
      simp only [List.append_assoc] at h
      exact absurd h (Text.append_ne_append (by decide) (by decide) _ _)
  | uniform min max =>
    obtain ⟨s, hs, ha⟩ := bind_eq_ok_iff.1 ha
    obtain rfl := pure_eq_ok_iff.1 ha
    cases x' with
    | misplaced kind => cases ha'
    | constant n' =>
      obtain ⟨s', -, ha'⟩ := bind_eq_ok_iff.1 ha'
      obtain rfl := pure_eq_ok_iff.1 ha'
      simp only [List.append_assoc] at h
      exact absurd h (Text.append_ne_append (by decide) (by decide) _ _)
    | uniform min' max' =>
      obtain ⟨s', hs', ha'⟩ := bind_eq_ok_iff.1 ha'
      obtain rfl := pure_eq_ok_iff.1 ha'
      simp only [List.append_assoc] at h
      obtain ⟨hmin, hmax, hrest⟩ := renderBounds_determines hs hs' (beginsWith_close r)
        (beginsWith_close r') (List.append_cancel_left h)
      exact ⟨.uniform hmin hmax, List.append_cancel_left hrest⟩

/-- A function that is shown as a comment. -/
def LootFunction.IsComment (f : LootFunction) : Prop := f = .bare ∨ ∃ m, f = .marker m

theorem LootFunction.render_cases {f : LootFunction} {a : Text} (h : f.render = .ok a) :
    (∃ n s, f = .constantCount n ∧ renderInteger n = .ok s ∧
        a = ".apply(constant(" ++ s ++ "))") ∨
      (∃ min max s, f = .uniformCount min max ∧ renderBounds min max = .ok s ∧
        a = ".apply(uniform(" ++ s ++ "))") ∨
      f.IsComment ∧ a = " /* " ++ f.name ++ " */ " := by
  cases f with
  | constantCount n =>
    obtain ⟨s, hs, h⟩ := bind_eq_ok_iff.1 h
    exact .inl ⟨n, s, rfl, hs, (pure_eq_ok_iff.1 h).symm⟩
  | uniformCount min max =>
    obtain ⟨s, hs, h⟩ := bind_eq_ok_iff.1 h
    exact .inr (.inl ⟨min, max, s, rfl, hs, (pure_eq_ok_iff.1 h).symm⟩)
  | marker m =>
    cases h
    exact .inr (.inr ⟨.inr ⟨m, rfl⟩, rfl⟩)
  | bare =>
    cases h
    exact .inr (.inr ⟨.inl rfl, rfl⟩)

/-- A call begins with a point, a comment with a space. -/
def functionStarts : List CodePoint := ['.', ' ']

theorem LootFunction.render_beginsWith {f : LootFunction} {a : Text} (h : f.render = .ok a)
    (s : Text) : (a ++ s).BeginsWith functionStarts := by
  rcases f.render_cases h with ⟨n, t, -, -, rfl⟩ | ⟨min, max, t, -, -, rfl⟩ | ⟨-, rfl⟩
  · exact Text.beginsWith_cons (by decide) _
  · exact Text.beginsWith_cons (by decide) _
  · exact Text.beginsWith_cons (by decide) _

theorem LootFunction.IsComment.avoids_name {f : LootFunction} (h : f.IsComment) :
    f.name.Avoids [' '] := by
  rcases h with rfl | ⟨m, rfl⟩
  · decide
  · cases m <;> decide

theorem LootFunction.IsComment.alike {f f' : LootFunction} (h : f.IsComment) (h' : f'.IsComment)
    (hname : f.name = f'.name) : f.Alike f' := by
  rcases h with rfl | ⟨m, rfl⟩
  · rcases h' with rfl | ⟨m', rfl⟩
    · exact .bare
    · cases m' <;> exact absurd hname (by decide)
  · rcases h' with rfl | ⟨m', rfl⟩
    · cases m <;> exact absurd hname (by decide)
    · obtain rfl : m = m' := by
        cases m <;> cases m' <;> first | rfl | exact absurd hname (by decide)
      exact .marker m

theorem LootFunction.render_determines {f f' : LootFunction} {a a' r r' : Text}
    (ha : f.render = .ok a) (ha' : f'.render = .ok a') (h : a ++ r = a' ++ r') :
    f.Alike f' ∧ r = r' := by
  have hclose : ∀ s : Text, (("))" : Text) ++ s).BeginsWith argumentEnds :=
    fun s => Text.beginsWith_cons (by decide) _
  have hspace : ∀ s : Text, ((" */ " : Text) ++ s).BeginsWith [' '] :=
    fun s => Text.beginsWith_cons (by decide) _
  rcases f.render_cases ha with ⟨n, s, rfl, hs, rfl⟩ | ⟨min, max, s, rfl, hs, rfl⟩ | ⟨hf, rfl⟩ <;>
    rcases f'.render_cases ha' with
      ⟨n', s', rfl, hs', rfl⟩ | ⟨min', max', s', rfl, hs', rfl⟩ | ⟨hf', rfl⟩ <;>
    simp only [List.append_assoc] at h
  · obtain ⟨rfl, hrest⟩ := renderInteger_determines hs hs' (hclose r) (hclose r')
      (List.append_cancel_left h)
    exact ⟨.constantCount n, List.append_cancel_left hrest⟩
  · exact absurd h (Text.append_ne_append (by decide) (by decide) _ _)
  · exact absurd h (Text.append_ne_append (by decide) (by decide) _ _)
  · exact absurd h (Text.append_ne_append (by decide) (by decide) _ _)
  · obtain ⟨hmin, hmax, hrest⟩ := renderBounds_determines hs hs' (hclose r) (hclose r')
      (List.append_cancel_left h)
    exact ⟨.uniformCount hmin hmax, List.append_cancel_left hrest⟩
  · exact absurd h (Text.append_ne_append (by decide) (by decide) _ _)
  · exact absurd h (Text.append_ne_append (by decide) (by decide) _ _)
  · exact absurd h (Text.append_ne_append (by decide) (by decide) _ _)
  · obtain ⟨hname, hrest⟩ := Text.append_inj_of_avoids hf.avoids_name hf'.avoids_name (hspace r)
      (hspace r') (List.append_cancel_left h)
    exact ⟨hf.alike hf' hname, List.append_cancel_left hrest⟩

/-- Functions follow each other without a separator, up to the end of their entry. -/
theorem delimited_functions :
    Text.Delimited (fun f a => LootFunction.render f = .ok a) LootFunction.Alike []
      (Text.BeginsWith argumentEnds) where
  item ha ha' _ _ h := LootFunction.render_determines ha ha' h
  next s ha := Text.not_beginsWith (by decide) (LootFunction.render_beginsWith ha s)

/-! ## Entries -/

/-- The item names of an entry do not end early: they hold no mark that ends an argument. -/
def Entry.HasPlainName : Entry → Prop
  | .item name _ _ => name.Avoids argumentEnds
  | _ => True

instance (entry : Entry) : Decidable entry.HasPlainName :=
  match entry with
  | .item name _ _ => inferInstanceAs (Decidable (name.Avoids argumentEnds))
  | .empty _ | .misplaced _ => .isTrue trivial

theorem renderWeight_beginsWith {weight : Int} {a : Text} (h : renderWeight weight = .ok a)
    (r : Text) : (a ++ (")" ++ r)).BeginsWith argumentEnds := by
  unfold renderWeight at h
  split at h
  · cases h
    exact beginsWith_close r
  · obtain ⟨s, -, h⟩ := bind_eq_ok_iff.1 h
    obtain rfl := pure_eq_ok_iff.1 h
    exact Text.beginsWith_cons (by decide) _

theorem renderWeight_determines {weight weight' : Int} {a a' r r' : Text}
    (ha : renderWeight weight = .ok a) (ha' : renderWeight weight' = .ok a')
    (h : a ++ (")" ++ r) = a' ++ (")" ++ r')) : weight = weight' ∧ r = r' := by
  unfold renderWeight at ha ha'
  split at ha <;> split at ha'
  · next hzero hzero' =>
    cases ha
    cases ha'
    exact ⟨hzero.trans hzero'.symm, List.append_cancel_left h⟩
  -- Where only one weight is left out, one text goes on with a comma, the other with `)`.
  · obtain ⟨s', -, ha'⟩ := bind_eq_ok_iff.1 ha'
    obtain rfl := pure_eq_ok_iff.1 ha'
    cases ha
    simp only [List.append_assoc, List.nil_append] at h
    exact absurd h (Text.append_ne_append (by decide) (by decide) _ _)
  · obtain ⟨s, -, ha⟩ := bind_eq_ok_iff.1 ha
    obtain rfl := pure_eq_ok_iff.1 ha
    cases ha'
    simp only [List.append_assoc, List.nil_append] at h
    exact absurd h (Text.append_ne_append (by decide) (by decide) _ _)
  · obtain ⟨s, hs, ha⟩ := bind_eq_ok_iff.1 ha
    obtain rfl := pure_eq_ok_iff.1 ha
    obtain ⟨s', hs', ha'⟩ := bind_eq_ok_iff.1 ha'
    obtain rfl := pure_eq_ok_iff.1 ha'
    simp only [List.append_assoc] at h
    obtain ⟨hweight, hrest⟩ := renderInteger_determines hs hs' (beginsWith_close r)
      (beginsWith_close r') (List.append_cancel_left h)
    exact ⟨hweight, List.append_cancel_left hrest⟩

section

variable {itemNamespace : Text}

theorem Entry.render_cases {entry : Entry} {a : Text} (h : entry.render itemNamespace = .ok a) :
    (∃ weight s, entry = .empty weight ∧ renderInteger weight = .ok s ∧
        a = "\t\t\t\t\tnew EmptyEntry(" ++ s ++ ")") ∨
      ∃ name weight functions s calls, entry = .item name weight functions ∧
        renderWeight weight = .ok s ∧
        List.Forall₂ (fun f c => LootFunction.render f = .ok c) functions calls ∧
        a = "\t\t\t\t\tnew ItemEntry(Item." ++ itemConstant itemNamespace name ++ s ++ ")"
          ++ calls.flatten := by
  cases entry with
  | misplaced kind => cases h
  | empty weight =>
    obtain ⟨s, hs, h⟩ := bind_eq_ok_iff.1 h
    exact .inl ⟨weight, s, rfl, hs, (pure_eq_ok_iff.1 h).symm⟩
  | item name weight functions =>
    obtain ⟨s, hs, h⟩ := bind_eq_ok_iff.1 h
    obtain ⟨calls, hcalls, h⟩ := bind_eq_ok_iff.1 h
    exact .inr ⟨name, weight, functions, s, calls, rfl, hs, mapM_eq_ok_iff.1 hcalls,
      (pure_eq_ok_iff.1 h).symm⟩

theorem Entry.render_beginsWith {entry : Entry} {a : Text} (h : entry.render itemNamespace = .ok a)
    (s : Text) : (a ++ s).BeginsWith ['\t'] := by
  rcases entry.render_cases h with ⟨w, t, -, -, rfl⟩ | ⟨name, w, fs, t, calls, -, -, -, rfl⟩
  · exact Text.beginsWith_cons (by decide) _
  · exact Text.beginsWith_cons (by decide) _

/-- After an entry there is a comma or the parenthesis that closes the pool. -/
theorem Entry.render_determines {entry entry' : Entry} {a a' r r' : Text}
    (plain : entry.HasPlainName) (plain' : entry'.HasPlainName)
    (ha : entry.render itemNamespace = .ok a) (ha' : entry'.render itemNamespace = .ok a')
    (hr : r.BeginsWith argumentEnds) (hr' : r'.BeginsWith argumentEnds) (h : a ++ r = a' ++ r') :
    entry.Alike itemNamespace entry' ∧ r = r' := by
  rcases entry.render_cases ha with
      ⟨w, s, rfl, hs, rfl⟩ | ⟨name, w, fs, s, calls, rfl, hs, hcalls, rfl⟩ <;>
    rcases entry'.render_cases ha' with
      ⟨w', s', rfl, hs', rfl⟩ | ⟨name', w', fs', s', calls', rfl, hs', hcalls', rfl⟩ <;>
    simp only [List.append_assoc] at h
  · obtain ⟨rfl, hrest⟩ := renderInteger_determines hs hs' (beginsWith_close r)
      (beginsWith_close r') (List.append_cancel_left h)
    exact ⟨.empty w, List.append_cancel_left hrest⟩
  · exact absurd h (Text.append_ne_append (by decide) (by decide) _ _)
  · exact absurd h (Text.append_ne_append (by decide) (by decide) _ _)
  · have hlow : ∀ c ∈ argumentEnds, c.val < 0x41 := by decide
    obtain ⟨hname, h⟩ := Text.append_inj_of_avoids (avoids_itemConstant hlow plain itemNamespace)
      (avoids_itemConstant hlow plain' itemNamespace) (renderWeight_beginsWith hs _)
      (renderWeight_beginsWith hs' _) (List.append_cancel_left h)
    obtain ⟨rfl, h⟩ := renderWeight_determines hs hs' h
    -- Functions are a sequence whose separator is empty.
    have hcallsText : ∀ texts : List Text, texts.flatten = texts.flatMap (([] : Text) ++ ·) := by
      intro texts
      simp [List.flatMap_id']
    rw [hcallsText, hcallsText] at h
    obtain ⟨hfunctions, hrest⟩ := delimited_functions.flatMap hcalls hcalls' hr hr' h
    exact ⟨.item w hname hfunctions, hrest⟩

/-- Entries and pools are set apart by a comma at the end of a line. -/
theorem beginsWith_comma (s : Text) : Text.BeginsWith [','] (",\n" ++ s) :=
  Text.beginsWith_cons (by decide) _

/-- Entries are set apart by commas, up to the parenthesis that closes the pool. -/
theorem delimited_entries :
    Text.Delimited (fun (e : Entry) a => e.HasPlainName ∧ e.render itemNamespace = .ok a)
      (Entry.Alike itemNamespace) ",\n" (Text.BeginsWith [')']) where
  item := by
    rintro entry entry' a a' r r' ⟨plain, ha⟩ ⟨plain', ha'⟩ hr hr' h
    have hafter : ∀ s : Text, Text.After (fun (e : Entry) a => e.HasPlainName ∧
        e.render itemNamespace = .ok a) ",\n" (Text.BeginsWith [')']) s →
          s.BeginsWith argumentEnds := by
      rintro s (⟨c, hc, t, rfl⟩ | ⟨e, a, t, -, rfl⟩)
      · exact Text.beginsWith_cons (by simp_all [argumentEnds]) t
      · exact Text.beginsWith_cons (by decide) _
    exact Entry.render_determines plain plain' ha ha' (hafter r hr) (hafter r' hr') h
  next s _ := Text.not_beginsWith (by decide) (beginsWith_comma _)

/-! ## Pools -/

/-- All items of a pool have plain names. -/
def LootPool.HasPlainNames (pool : LootPool) : Prop := ∀ e ∈ pool.entries, e.HasPlainName

instance (pool : LootPool) : Decidable pool.HasPlainNames :=
  inferInstanceAs (Decidable (∀ e ∈ pool.entries, e.HasPlainName))

theorem LootPool.render_cases {pool : LootPool} {a : Text} (h : pool.render itemNamespace = .ok a) :
    ∃ rolls entries, pool.rolls.render = .ok rolls ∧
      List.Forall₂ (fun e s => Entry.render itemNamespace e = .ok s) pool.entries entries ∧
      a = "\t\t\tnew LootPool(" ++ rolls ++ ",\n" ++ Text.join ",\n" entries ++ ")" := by
  obtain ⟨entries, hentries, h⟩ := bind_eq_ok_iff.1 h
  obtain ⟨rolls, hrolls, h⟩ := bind_eq_ok_iff.1 h
  exact ⟨rolls, entries, hrolls, mapM_eq_ok_iff.1 hentries, (pure_eq_ok_iff.1 h).symm⟩

theorem LootPool.render_beginsWith {pool : LootPool} {a : Text}
    (h : pool.render itemNamespace = .ok a) (s : Text) : (a ++ s).BeginsWith ['\t'] := by
  obtain ⟨rolls, entries, -, -, rfl⟩ := pool.render_cases h
  exact Text.beginsWith_cons (by decide) _

theorem LootPool.render_determines {pool pool' : LootPool} {a a' r r' : Text}
    (plain : pool.HasPlainNames) (plain' : pool'.HasPlainNames)
    (ha : pool.render itemNamespace = .ok a) (ha' : pool'.render itemNamespace = .ok a')
    (h : a ++ r = a' ++ r') : pool.Alike itemNamespace pool' ∧ r = r' := by
  obtain ⟨rolls, entries, hrolls, hentries, rfl⟩ := pool.render_cases ha
  obtain ⟨rolls', entries', hrolls', hentries', rfl⟩ := pool'.render_cases ha'
  simp only [List.append_assoc] at h
  obtain ⟨rollsAlike, h⟩ := Roll.render_determines hrolls hrolls' (List.append_cancel_left h)
  have hclose : ∀ s : Text, ((")" : Text) ++ s).BeginsWith [')'] :=
    fun s => Text.beginsWith_cons (by decide) _
  obtain ⟨entriesAlike, hrest⟩ := delimited_entries.join
    (fun s he => Text.not_beginsWith (by decide) (Entry.render_beginsWith he.2 s))
    ((List.forall₂_and_left _ _).2 ⟨plain, hentries⟩)
    ((List.forall₂_and_left _ _).2 ⟨plain', hentries'⟩) (hclose r) (hclose r') (List.append_cancel_left h)
  exact ⟨⟨rollsAlike, entriesAlike⟩, List.append_cancel_left hrest⟩

/-- Pools are set apart by commas, up to the line feed before the end of the declaration. -/
theorem delimited_pools :
    Text.Delimited (fun (p : LootPool) a => p.HasPlainNames ∧ p.render itemNamespace = .ok a)
      (LootPool.Alike itemNamespace) ",\n" (Text.BeginsWith ['\n']) where
  item := by
    rintro pool pool' a a' r r' ⟨plain, ha⟩ ⟨plain', ha'⟩ - - h
    exact LootPool.render_determines plain plain' ha ha' h
  next s _ := Text.not_beginsWith (by decide) (beginsWith_comma _)

/-! ## Tables -/

/-- The name of the table has no line feed, and all items have plain names. -/
structure LootTable.HasPlainNames (table : LootTable) : Prop where
  name : table.name.Avoids ['\n']
  pools : ∀ p ∈ table.pools, p.HasPlainNames

instance (table : LootTable) : Decidable table.HasPlainNames :=
  decidable_of_iff (table.name.Avoids ['\n'] ∧ ∀ p ∈ table.pools, p.HasPlainNames)
    ⟨fun ⟨name, pools⟩ => ⟨name, pools⟩, fun ⟨name, pools⟩ => ⟨name, pools⟩⟩

theorem LootTable.render_cases {table : LootTable} {a : Text}
    (h : table.render itemNamespace = .ok a) :
    ∃ pools, List.Forall₂ (fun p s => LootPool.render itemNamespace p = .ok s) table.pools pools ∧
      a = "\tpublic static final LootTable " ++ table.name.upper ++ " = new LootTable(\n"
        ++ Text.join ",\n" pools ++ "\n\t);" := by
  obtain ⟨pools, hpools, h⟩ := bind_eq_ok_iff.1 h
  exact ⟨pools, mapM_eq_ok_iff.1 hpools, (pure_eq_ok_iff.1 h).symm⟩

theorem LootTable.render_beginsWith {table : LootTable} {a : Text}
    (h : table.render itemNamespace = .ok a) (s : Text) : (a ++ s).BeginsWith ['\t'] := by
  obtain ⟨pools, -, rfl⟩ := table.render_cases h
  exact Text.beginsWith_cons (by decide) _

/-- The name of a table is what stands between the fixed parts of the first line. -/
theorem name_determines {name name' r r' : Text} (plain : name.Avoids ['\n'])
    (plain' : name'.Avoids ['\n'])
    (h : name ++ (" = new LootTable(\n" ++ r) = name' ++ (" = new LootTable(\n" ++ r')) :
    name = name' ∧ r = r' := by
  -- The cut is at the first line feed, so the fixed part before it is taken with the name.
  have hsplit : (" = new LootTable(\n" : Text) = (" = new LootTable(" : Text) ++ ("\n" : Text) := by
    decide
  have hbreak : ∀ s : Text, (("\n" : Text) ++ s).BeginsWith ['\n'] :=
    fun s => Text.beginsWith_cons (by decide) _
  rw [hsplit] at h
  simp only [List.append_assoc] at h
  rw [← List.append_assoc, ← List.append_assoc name'] at h
  have hline : Text.Avoids ['\n'] (" = new LootTable(" : Text) := by decide
  obtain ⟨hname, hrest⟩ := Text.append_inj_of_avoids (Text.avoids_append.2 ⟨plain, hline⟩)
    (Text.avoids_append.2 ⟨plain', hline⟩) (hbreak r) (hbreak r') h
  exact ⟨List.append_cancel_right hname, List.append_cancel_left hrest⟩

theorem LootTable.render_determines {table table' : LootTable} {a a' r r' : Text}
    (plain : table.HasPlainNames) (plain' : table'.HasPlainNames)
    (ha : table.render itemNamespace = .ok a) (ha' : table'.render itemNamespace = .ok a')
    (h : a ++ r = a' ++ r') : table.Alike itemNamespace table' ∧ r = r' := by
  obtain ⟨pools, hpools, rfl⟩ := table.render_cases ha
  obtain ⟨pools', hpools', rfl⟩ := table'.render_cases ha'
  simp only [List.append_assoc] at h
  have hlow : ∀ c ∈ [(('\n' : Char) : CodePoint)], c.val < 0x41 := by decide
  obtain ⟨hname, h⟩ := name_determines (plain.name.upper hlow) (plain'.name.upper hlow)
    (List.append_cancel_left h)
  have hend : ∀ s : Text, (("\n\t);" : Text) ++ s).BeginsWith ['\n'] :=
    fun s => Text.beginsWith_cons (by decide) _
  obtain ⟨poolsAlike, hrest⟩ := delimited_pools.join
    (fun s hp => Text.not_beginsWith (by decide) (LootPool.render_beginsWith hp.2 s))
    ((List.forall₂_and_left _ _).2 ⟨plain.pools, hpools⟩)
    ((List.forall₂_and_left _ _).2 ⟨plain'.pools, hpools'⟩) (hend r) (hend r') h
  exact ⟨⟨hname, poolsAlike⟩, List.append_cancel_left hrest⟩

/-- Tables are set apart by blank lines, up to the end of the text. -/
theorem delimited_tables :
    Text.Delimited (fun (t : LootTable) a => t.HasPlainNames ∧ t.render itemNamespace = .ok a)
      (LootTable.Alike itemNamespace) "\n\n" (· = []) where
  item := by
    rintro table table' a a' r r' ⟨plain, ha⟩ ⟨plain', ha'⟩ - - h
    exact LootTable.render_determines plain plain' ha ha' h
  next s _ := nofun

/-! ## Alike models -/

theorem renderBounds_eq_of_alike {min max min' max' : Number} (hmin : min.Alike min')
    (hmax : max.Alike max') : renderBounds min max = renderBounds min' max' := by
  obtain ⟨low, hlow, hlow'⟩ := hmin
  obtain ⟨high, hhigh, hhigh'⟩ := hmax
  unfold renderBounds
  rw [hlow, hlow', hhigh, hhigh']

theorem Roll.Alike.render_eq {x x' : Roll} (h : x.Alike x') : x.render = x'.render := by
  cases h with
  | constant n => rfl
  | uniform hmin hmax =>
    simp only [Roll.render]
    rw [renderBounds_eq_of_alike hmin hmax]

theorem LootFunction.Alike.render_eq {f f' : LootFunction} (h : f.Alike f') :
    f.render = f'.render := by
  cases h with
  | constantCount n => rfl
  | uniformCount hmin hmax =>
    simp only [LootFunction.render]
    rw [renderBounds_eq_of_alike hmin hmax]
  | marker m => rfl
  | bare => rfl

theorem Entry.Alike.render_eq {entry entry' : Entry} (h : entry.Alike itemNamespace entry') :
    entry.render itemNamespace = entry'.render itemNamespace := by
  cases h with
  | empty weight => rfl
  | item weight hname hfunctions =>
    have hcalls := mapM_congr_of_forall₂ (hfunctions.imp fun _ _ hf => hf.render_eq)
    simp only [Entry.render]
    rw [hname, hcalls]

theorem LootPool.Alike.render_eq {pool pool' : LootPool} (h : pool.Alike itemNamespace pool') :
    pool.render itemNamespace = pool'.render itemNamespace := by
  have hentries := mapM_congr_of_forall₂ (h.entries.imp fun _ _ he => he.render_eq)
  unfold LootPool.render
  rw [h.rolls.render_eq, hentries]

theorem LootTable.Alike.render_eq {table table' : LootTable}
    (h : table.Alike itemNamespace table') :
    table.render itemNamespace = table'.render itemNamespace := by
  have hpools := mapM_congr_of_forall₂ (h.pools.imp fun _ _ hp => hp.render_eq)
  unfold LootTable.render
  rw [h.name, hpools]

/-- Two lists of tables have the same declarations exactly if they are alike. -/
theorem renderTables_eq_iff_alike {tables tables' : List LootTable} {text text' : Text}
    (plain : ∀ t ∈ tables, t.HasPlainNames) (plain' : ∀ t ∈ tables', t.HasPlainNames)
    (h : renderTables itemNamespace tables = .ok text)
    (h' : renderTables itemNamespace tables' = .ok text') :
    text = text' ↔ List.Forall₂ (LootTable.Alike itemNamespace) tables tables' := by
  constructor
  · rintro rfl
    obtain ⟨texts, htexts, h⟩ := bind_eq_ok_iff.1 h
    obtain ⟨texts', htexts', h'⟩ := bind_eq_ok_iff.1 h'
    have hjoin : Text.join "\n\n" texts ++ [] = Text.join "\n\n" texts' ++ [] := by
      rw [pure_eq_ok_iff.1 h, pure_eq_ok_iff.1 h']
    exact (delimited_tables.join (fun s ht => (LootTable.render_beginsWith ht.2 s).ne_nil)
      ((List.forall₂_and_left _ _).2 ⟨plain, mapM_eq_ok_iff.1 htexts⟩)
      ((List.forall₂_and_left _ _).2 ⟨plain', mapM_eq_ok_iff.1 htexts'⟩) rfl rfl hjoin).1
  · intro halike
    have htables := mapM_congr_of_forall₂ (halike.imp fun _ _ ht => ht.render_eq)
    unfold renderTables at h h'
    rw [htables, h'] at h
    exact (Except.ok.inj h).symm

end

/-! ### Two spellings of the same tables -/

/-- The double `1.0`. -/
def oneBound : Number := .double (.finite ⟨false, 4503599627370496, -52, by decide⟩)

/-- The double `1.01`. Its literal is that of `1.0`. -/
def nearOneBound : Number := .double (.finite ⟨false, 4548635623644201, -52, by decide⟩)

/-- A table, and a second one without pools. -/
def fullSpelling : List LootTable :=
  [⟨"A", [⟨.uniform oneBound oneBound, [.item "minecraft:tnt" 0 [.marker .setDamage]]⟩]⟩, ⟨"B", []⟩]

def shortSpelling : List LootTable :=
  [⟨"a", [⟨.uniform nearOneBound oneBound, [.item "tnt" 0 [.marker .setDamage]]⟩]⟩, ⟨"b", []⟩]

theorem spellings_alike :
    (∀ t ∈ fullSpelling, t.HasPlainNames) ∧ (∀ t ∈ shortSpelling, t.HasPlainNames) ∧
      ∃ text, renderTables "minecraft" fullSpelling = .ok text ∧
        renderTables "minecraft" shortSpelling = .ok text ∧
        List.Forall₂ (LootTable.Alike "minecraft") fullSpelling shortSpelling := by
  have plain : ∀ t ∈ fullSpelling, t.HasPlainNames := by decide
  have plain' : ∀ t ∈ shortSpelling, t.HasPlainNames := by decide
  have hsame : renderTables "minecraft" shortSpelling = renderTables "minecraft" fullSpelling := by
    decide +kernel
  have hok : (renderTables "minecraft" fullSpelling).isOk := by decide +kernel
  cases h : renderTables "minecraft" fullSpelling with
  | error e =>
    rw [h] at hok
    cases hok
  | ok text =>
    have h' := hsame.trans h
    exact ⟨plain, plain', text, rfl, h', (renderTables_eq_iff_alike plain plain' h h').1 rfl⟩

end LootTables
