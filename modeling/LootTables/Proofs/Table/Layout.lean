import LootTables.Proofs.Table.Unambiguous

/-!
# The lines of a declaration

A declaration is put together from joins with the same separator at two levels. Here it is described
line by line: which line shows what, how far it is indented, and how it ends (`tableLines`). An entry
ends with a comma or with the parenthesis of its pool, and the last one of a pool has a comma after
that unless the pool is the last.

That the text falls into these lines needs no line feed in what they show. The names of items and
tables are the only part that could hold one, so nothing else is asked for (`LootTable.HasLines`).
As no line is blank, the declarations of several tables are the blocks between the blank lines
(`Text.blocks`).
-/

namespace LootTables

/-! ## Lines and blocks of a text -/

namespace Text

/-- The lines of a text that is cut at its line feeds. -/
abbrev plainLines (s : Text) : List Text := split '\n' s

/-- The blocks of lines between the blank lines of a text; an empty text has none. -/
def blocks (s : Text) : List Text :=
  if s = [] then [] else (s.plainLines.splitOn []).map (join "\n")

/-- The text stays on its line. -/
abbrev IsLine (s : Text) : Prop := s.Avoids ['\n']

/-- The text of lines that each end with a line feed. -/
def ofLines (lines : List Text) : Text := lines.flatMap (· ++ "\n")

theorem ofLines_cons (line : Text) (lines : List Text) :
    ofLines (line :: lines) = line ++ "\n" ++ ofLines lines := List.flatMap_cons

theorem ofLines_append (lines lines' : List Text) :
    ofLines (lines ++ lines') = ofLines lines ++ ofLines lines' := List.flatMap_append

variable {c : CodePoint}

theorem split_ne_nil (c : CodePoint) (s : Text) : split c s ≠ [] := by
  cases s with
  | nil => exact List.cons_ne_nil _ _
  | cons d s =>
    unfold split
    split
    · exact List.cons_ne_nil _ _
    · split <;> exact List.cons_ne_nil _ _

theorem split_cons_self (r : Text) : split c (c :: r) = [] :: split c r := by
  rw [split, if_pos rfl]

/-- What comes after a separator is split on its own. -/
theorem split_append_split (s r : Text) : split c (s ++ c :: r) = split c s ++ split c r := by
  induction s with
  | nil => exact split_cons_self r
  | cons d s ih =>
    rw [List.cons_append, split, split, ih]
    split
    · rfl
    · cases hpieces : split c s with
      | nil => exact absurd hpieces (split_ne_nil c s)
      | cons piece pieces => rfl

/-- Joining takes splitting back. -/
theorem join_split (c : CodePoint) (s : Text) : join [c] (split c s) = s := by
  induction s with
  | nil => rfl
  | cons d s ih =>
    rw [split]
    cases hpieces : split c s with
    | nil => exact absurd hpieces (split_ne_nil c s)
    | cons piece pieces =>
      rw [hpieces, join_cons] at ih
      split
      · next h => rw [join_cons, List.flatMap_cons, h, List.nil_append, List.append_assoc, ih]; rfl
      · rw [join_cons, List.cons_append, ih]

/-- The lines that end with a line feed, and one after them. -/
theorem plainLines_ofLines {lines : List Text} {last : Text} (h : ∀ l ∈ lines, l.IsLine)
    (hlast : last.IsLine) : (ofLines lines ++ last).plainLines = lines ++ [last] := by
  have notMem : ∀ {s : Text}, s.IsLine → (('\n' : Char) : CodePoint) ∉ s :=
    fun hs hmem => hs _ hmem List.mem_cons_self
  induction lines with
  | nil => exact split_of_notMem (notMem hlast)
  | cons l lines ih =>
    obtain ⟨hl, hrest⟩ := List.forall_mem_cons.1 h
    rw [List.cons_append, ← ih hrest, ofLines_cons, List.append_assoc, List.append_assoc]
    exact split_append_cons (notMem hl) _

/-- The lines of texts that are set apart by blank lines: those of each text, and the blank ones. -/
theorem plainLines_join {texts : List Text} (h : texts ≠ []) :
    (join "\n\n" texts).plainLines = [[]].intercalate (texts.map plainLines) := by
  induction texts with
  | nil => exact absurd rfl h
  | cons s texts ih =>
    cases texts with
    | nil => simp [join]
    | cons t texts =>
      have hjoin : join "\n\n" (s :: t :: texts) =
          s ++ (('\n' : Char) : CodePoint) :: (('\n' : Char) : CodePoint) :: join "\n\n" (t :: texts) := by
        unfold join
        rw [List.intercalate_cons_cons, List.append_assoc]
        rfl
      have hrest : split '\n' (join "\n\n" (t :: texts)) = _ := ih (List.cons_ne_nil t texts)
      rw [hjoin, plainLines, split_append_split, split_cons_self, hrest]
      simp only [List.map_cons, List.intercalate_cons_cons, List.append_assoc, List.cons_append,
        List.nil_append]

/-- Texts without blank lines are the blocks of the text that sets them apart by blank lines. -/
theorem blocks_join {texts : List Text} (h : ∀ s ∈ texts, [] ∉ s.plainLines) :
    (join "\n\n" texts).blocks = texts := by
  cases texts with
  | nil => rfl
  | cons s texts =>
    have hne : join "\n\n" (s :: texts) ≠ [] := by
      intro hnil
      rw [join_cons, List.append_eq_nil_iff] at hnil
      exact h s List.mem_cons_self (by rw [hnil.1]; exact List.mem_cons_self)
    have hlines : ∀ ls ∈ (s :: texts).map plainLines, [] ∉ ls := List.forall_mem_map.2 h
    have hback : join "\n" ∘ plainLines = id := funext (join_split '\n')
    rw [blocks, if_neg hne, plainLines_join (List.cons_ne_nil s texts),
      List.splitOn_intercalate [] hlines (List.cons_ne_nil _ _), List.map_map, hback, List.map_id]

end Text

/-! ## The lines -/

/-- So many tabs. -/
def indentation (n : Nat) : Text := List.replicate n '\t'

/-- What the lines of a pool show: its roll, and its entries without their indentation. -/
structure ShownPool where
  roll : Text
  entries : List Text

/-- A line for each entry of a pool; `after` is what comes after the parenthesis of the pool. -/
def entryLines (after : Text) : List Text → List Text
  | [] => []
  | [entry] => [indentation 5 ++ entry ++ ")" ++ after]
  | entry :: entries => (indentation 5 ++ entry ++ ",") :: entryLines after entries

/-- The line that opens a pool, and the lines of its entries. -/
def ShownPool.lines (after : Text) (pool : ShownPool) : List Text :=
  (indentation 3 ++ "new LootPool(" ++ pool.roll ++ ",") :: entryLines after pool.entries

/-- The lines of pools. The last pool has no comma after its parenthesis. -/
def poolLines : List ShownPool → List Text
  | [] => []
  | [pool] => pool.lines []
  | pool :: pools => pool.lines "," ++ poolLines pools

/-- The lines of a declaration. -/
def tableLines (name : Text) (pools : List ShownPool) : List Text :=
  (indentation 1 ++ "public static final LootTable " ++ name.upper ++ " = new LootTable(")
    :: poolLines pools ++ [indentation 1 ++ ");"]

/-- These texts are the roll and the entries of the pool. No entry is indented any further. -/
structure LootPool.Shows (itemNamespace : Text) (pool : LootPool) (shown : ShownPool) : Prop where
  roll : pool.rolls.render = .ok shown.roll
  entries : List.Forall₂
    (fun entry s => Entry.render itemNamespace entry = .ok (indentation 5 ++ s) ∧ "new " <+: s)
    pool.entries shown.entries

/-- The entry has no line feed in its item name. -/
def Entry.HasLineName : Entry → Prop
  | .item name _ _ => name.IsLine
  | _ => True

instance (entry : Entry) : Decidable entry.HasLineName :=
  match entry with
  | .item name _ _ => inferInstanceAs (Decidable name.IsLine)
  | .empty _ | .misplaced _ => .isTrue trivial

/-- The table has pools, its pools have entries, and no name in it goes over several lines. -/
structure LootTable.HasLines (table : LootTable) : Prop where
  name : table.name.IsLine
  pools : table.pools ≠ []
  entries : ∀ p ∈ table.pools, p.entries ≠ []
  items : ∀ p ∈ table.pools, ∀ e ∈ p.entries, e.HasLineName

instance (table : LootTable) : Decidable table.HasLines :=
  decidable_of_iff (table.name.IsLine ∧ table.pools ≠ [] ∧ (∀ p ∈ table.pools, p.entries ≠ []) ∧
      ∀ p ∈ table.pools, ∀ e ∈ p.entries, e.HasLineName)
    ⟨fun ⟨name, pools, entries, items⟩ => ⟨name, pools, entries, items⟩,
      fun ⟨name, pools, entries, items⟩ => ⟨name, pools, entries, items⟩⟩

/-! ## What is shown stays on its line -/

theorem renderInteger_isLine {n : Int} {s : Text} (h : renderInteger n = .ok s) : s.IsLine := by
  obtain ⟨-, rfl⟩ := renderInteger_eq_ok_iff.1 h
  exact Text.avoids_ofInt (by decide) n

theorem renderBounds_isLine {min max : Number} {s : Text} (h : renderBounds min max = .ok s) :
    s.IsLine := by
  obtain ⟨low, hlow, h⟩ := bind_eq_ok_iff.1 h
  obtain ⟨high, hhigh, h⟩ := bind_eq_ok_iff.1 h
  obtain rfl := pure_eq_ok_iff.1 h
  have hlow : low.IsLine := Number.avoids_literal (mapError_eq_ok_iff.1 hlow) (by decide)
  have hhigh : high.IsLine := Number.avoids_literal (mapError_eq_ok_iff.1 hhigh) (by decide)
  have hcomma : Text.IsLine ", " := by decide
  exact Text.avoids_append.2 ⟨Text.avoids_append.2 ⟨hlow, hcomma⟩, hhigh⟩

/-- Between a beginning and an end on the same line. -/
theorem Text.IsLine.between {start s stop : Text} (hs : s.IsLine) (hstart : start.IsLine)
    (hstop : stop.IsLine) : (start ++ s ++ stop).IsLine :=
  Text.avoids_append.2 ⟨Text.avoids_append.2 ⟨hstart, hs⟩, hstop⟩

theorem Text.isLine_flatten {texts : List Text} (h : ∀ s ∈ texts, s.IsLine) :
    Text.IsLine texts.flatten := by
  intro c hc
  obtain ⟨s, hs, hc⟩ := List.mem_flatten.1 hc
  exact h s hs c hc

theorem Roll.render_isLine {roll : Roll} {s : Text} (h : roll.render = .ok s) : s.IsLine := by
  cases roll with
  | misplaced kind => cases h
  | constant n =>
    obtain ⟨t, ht, h⟩ := bind_eq_ok_iff.1 h
    obtain rfl := pure_eq_ok_iff.1 h
    exact (renderInteger_isLine ht).between (by decide) (by decide)
  | uniform min max =>
    obtain ⟨t, ht, h⟩ := bind_eq_ok_iff.1 h
    obtain rfl := pure_eq_ok_iff.1 h
    exact (renderBounds_isLine ht).between (by decide) (by decide)

theorem LootFunction.render_isLine {f : LootFunction} {s : Text} (h : f.render = .ok s) :
    s.IsLine := by
  rcases f.render_cases h with ⟨n, t, -, ht, rfl⟩ | ⟨min, max, t, -, ht, rfl⟩ | ⟨hf, rfl⟩
  · exact (renderInteger_isLine ht).between (by decide) (by decide)
  · exact (renderBounds_isLine ht).between (by decide) (by decide)
  · have hname : f.name.IsLine := by
      rcases hf with rfl | ⟨m, rfl⟩
      · decide
      · cases m <;> decide
    exact hname.between (by decide) (by decide)

theorem renderWeight_isLine {weight : Int} {s : Text} (h : renderWeight weight = .ok s) :
    s.IsLine := by
  unfold renderWeight at h
  split at h
  · cases h
    decide
  · obtain ⟨t, ht, h⟩ := bind_eq_ok_iff.1 h
    obtain rfl := pure_eq_ok_iff.1 h
    have hcomma : Text.IsLine ", " := by decide
    exact Text.avoids_append.2 ⟨hcomma, renderInteger_isLine ht⟩

section

variable {itemNamespace : Text}

/-- An entry is a construction that is indented by five tabs. -/
theorem Entry.render_shows {entry : Entry} {a : Text} (hname : entry.HasLineName)
    (h : entry.render itemNamespace = .ok a) :
    ∃ s : Text, a = indentation 5 ++ s ∧ "new " <+: s ∧ s.IsLine := by
  rcases entry.render_cases h with
      ⟨w, t, rfl, ht, rfl⟩ | ⟨name, w, fs, t, calls, rfl, ht, hcalls, rfl⟩
  · refine ⟨"new EmptyEntry(" ++ t ++ ")", rfl, ⟨"EmptyEntry(" ++ t ++ ")", rfl⟩, ?_⟩
    exact (renderInteger_isLine ht).between (by decide) (by decide)
  · refine ⟨"new ItemEntry(Item." ++ itemConstant itemNamespace name ++ t ++ ")" ++ calls.flatten,
      rfl, ⟨"ItemEntry(Item." ++ itemConstant itemNamespace name ++ t ++ ")" ++ calls.flatten, rfl⟩,
      ?_⟩
    have hitem : Text.IsLine (itemConstant itemNamespace name) :=
      avoids_itemConstant (by decide) hname itemNamespace
    have hcalls : ∀ c ∈ calls, c.IsLine :=
      forall_of_forall₂ hcalls fun _ _ hc => LootFunction.render_isLine hc
    have hargument : Text.IsLine (itemConstant itemNamespace name ++ t) :=
      Text.avoids_append.2 ⟨hitem, renderWeight_isLine ht⟩
    rw [List.append_assoc ("new ItemEntry(Item." : Text)]
    exact Text.avoids_append.2
      ⟨hargument.between (by decide) (by decide), Text.isLine_flatten hcalls⟩

/-- The lines of what is shown can be told apart: there is an entry, and nothing goes over several
lines. -/
structure ShownPool.HasLines (shown : ShownPool) : Prop where
  roll : shown.roll.IsLine
  nonempty : shown.entries ≠ []
  entries : ∀ s ∈ shown.entries, s.IsLine

/-- The text of a pool. -/
def ShownPool.text (shown : ShownPool) : Text :=
  indentation 3 ++ "new LootPool(" ++ shown.roll ++ ",\n"
    ++ Text.join ",\n" (shown.entries.map (indentation 5 ++ ·)) ++ ")"

theorem Entry.renders_show {entries : List Entry} {texts : List Text}
    (hnames : ∀ e ∈ entries, e.HasLineName)
    (h : List.Forall₂ (fun e s => Entry.render itemNamespace e = .ok s) entries texts) :
    ∃ shown : List Text, texts = shown.map (indentation 5 ++ ·) ∧ (∀ s ∈ shown, s.IsLine) ∧
      List.Forall₂ (fun e s => Entry.render itemNamespace e = .ok (indentation 5 ++ s) ∧ "new " <+: s)
        entries shown := by
  induction h with
  | nil => exact ⟨[], rfl, List.forall_mem_nil _, .nil⟩
  | @cons entry text entries texts he _ ih =>
    obtain ⟨hname, hnames⟩ := List.forall_mem_cons.1 hnames
    obtain ⟨s, rfl, hnew, hs⟩ := entry.render_shows hname he
    obtain ⟨shown, rfl, hshown, hentries⟩ := ih hnames
    exact ⟨s :: shown, rfl, List.forall_mem_cons.2 ⟨hs, hshown⟩, .cons ⟨he, hnew⟩ hentries⟩

theorem LootPool.render_shows {pool : LootPool} {a : Text} (hentry : pool.entries ≠ [])
    (hnames : ∀ e ∈ pool.entries, e.HasLineName) (h : pool.render itemNamespace = .ok a) :
    ∃ shown : ShownPool, pool.Shows itemNamespace shown ∧ shown.HasLines ∧ a = shown.text := by
  obtain ⟨roll, texts, hroll, htexts, rfl⟩ := pool.render_cases h
  obtain ⟨shown, rfl, hshown, hentries⟩ := Entry.renders_show hnames htexts
  have nonempty : shown ≠ [] := by
    rintro rfl
    exact hentry (List.forall₂_nil_right_iff.1 hentries)
  exact ⟨⟨roll, shown⟩, ⟨hroll, hentries⟩, ⟨Roll.render_isLine hroll, nonempty, hshown⟩, rfl⟩

theorem LootPool.renders_show {pools : List LootPool} {texts : List Text}
    (hentries : ∀ p ∈ pools, p.entries ≠ []) (hnames : ∀ p ∈ pools, ∀ e ∈ p.entries, e.HasLineName)
    (h : List.Forall₂ (fun p s => LootPool.render itemNamespace p = .ok s) pools texts) :
    ∃ shown : List ShownPool, List.Forall₂ (LootPool.Shows itemNamespace) pools shown ∧
      (∀ p ∈ shown, p.HasLines) ∧ texts = shown.map ShownPool.text := by
  induction h with
  | nil => exact ⟨[], .nil, List.forall_mem_nil _, rfl⟩
  | @cons pool text pools texts hp _ ih =>
    obtain ⟨hentry, hentries⟩ := List.forall_mem_cons.1 hentries
    obtain ⟨hname, hnames⟩ := List.forall_mem_cons.1 hnames
    obtain ⟨s, hshows, hs, rfl⟩ := pool.render_shows hentry hname hp
    obtain ⟨shown, hpools, hshown, rfl⟩ := ih hentries hnames
    exact ⟨s :: shown, .cons hshows hpools, List.forall_mem_cons.2 ⟨hs, hshown⟩, rfl⟩

end

/-! ## The joins fall into the lines -/

theorem Text.join_cons_cons (separator s t : Text) (texts : List Text) :
    join separator (s :: t :: texts) = s ++ separator ++ join separator (t :: texts) :=
  List.intercalate_cons_cons

/-- A separator is a comma at the end of a line. -/
theorem separator_eq : (",\n" : Text) = "," ++ "\n" := by decide

/-- With its parenthesis a joined pool is the lines of its entries. -/
theorem join_entries (after : Text) {entries : List Text} (h : entries ≠ []) :
    Text.join ",\n" (entries.map (indentation 5 ++ ·)) ++ ")" ++ after ++ "\n" =
      Text.ofLines (entryLines after entries) := by
  induction entries with
  | nil => exact absurd rfl h
  | cons entry entries ih =>
    cases entries with
    | nil => simp [Text.join, Text.ofLines, entryLines]
    | cons next entries =>
      have hrest := ih (List.cons_ne_nil next entries)
      have hlines : entryLines after (entry :: next :: entries) =
          (indentation 5 ++ entry ++ ",") :: entryLines after (next :: entries) := rfl
      rw [hlines, Text.ofLines_cons, ← hrest, List.map_cons, List.map_cons, Text.join_cons_cons,
        separator_eq]
      simp only [List.append_assoc]

theorem ShownPool.text_append (after : Text) {pool : ShownPool} (h : pool.entries ≠ []) :
    pool.text ++ after ++ "\n" = Text.ofLines (pool.lines after) := by
  rw [lines, Text.ofLines_cons, ← join_entries after h, text]
  simp only [separator_eq, List.append_assoc]

/-- Up to the end of the declaration the joined pools are their lines. -/
theorem join_pools {pools : List ShownPool} (h : pools ≠ []) (hlines : ∀ p ∈ pools, p.HasLines) :
    Text.join ",\n" (pools.map ShownPool.text) ++ "\n" = Text.ofLines (poolLines pools) := by
  induction pools with
  | nil => exact absurd rfl h
  | cons pool pools ih =>
    obtain ⟨hpool, hrest⟩ := List.forall_mem_cons.1 hlines
    cases pools with
    | nil =>
      rw [poolLines, ← ShownPool.text_append [] hpool.nonempty]
      simp [Text.join]
    | cons next pools =>
      have hpools := ih (List.cons_ne_nil next pools) hrest
      have hlines : poolLines (pool :: next :: pools) =
          pool.lines "," ++ poolLines (next :: pools) := rfl
      rw [hlines, Text.ofLines_append, ← ShownPool.text_append "," hpool.nonempty, ← hpools,
        List.map_cons, List.map_cons, Text.join_cons_cons, separator_eq]
      simp only [List.append_assoc]

/-! ## Every line stays a line -/

/-- A line that is not blank. -/
def Text.IsFullLine (s : Text) : Prop := s.IsLine ∧ s ≠ []

theorem entryLines_isFullLine {after : Text} (hafter : after.IsLine) {entries : List Text}
    (h : ∀ s ∈ entries, s.IsLine) : ∀ l ∈ entryLines after entries, l.IsFullLine := by
  induction entries with
  | nil => exact List.forall_mem_nil _
  | cons entry entries ih =>
    obtain ⟨hentry, hrest⟩ := List.forall_mem_cons.1 h
    cases entries with
    | nil =>
      have hline : Text.IsLine (indentation 5 ++ entry ++ ")") :=
        hentry.between (by decide) (by decide)
      exact List.forall_mem_singleton.2
        ⟨Text.avoids_append.2 ⟨hline, hafter⟩, List.cons_ne_nil _ _⟩
    | cons next entries =>
      have hline : Text.IsLine (indentation 5 ++ entry ++ ",") :=
        hentry.between (by decide) (by decide)
      exact List.forall_mem_cons.2 ⟨⟨hline, List.cons_ne_nil _ _⟩, ih hrest⟩

theorem ShownPool.HasLines.isFullLine {pool : ShownPool} (h : pool.HasLines) {after : Text}
    (hafter : after.IsLine) : ∀ l ∈ pool.lines after, l.IsFullLine :=
  List.forall_mem_cons.2 ⟨⟨h.roll.between (by decide) (by decide), List.cons_ne_nil _ _⟩,
    entryLines_isFullLine hafter h.entries⟩

theorem poolLines_isFullLine {pools : List ShownPool} (h : ∀ p ∈ pools, p.HasLines) :
    ∀ l ∈ poolLines pools, l.IsFullLine := by
  induction pools with
  | nil => exact List.forall_mem_nil _
  | cons pool pools ih =>
    obtain ⟨hpool, hrest⟩ := List.forall_mem_cons.1 h
    cases pools with
    | nil => exact hpool.isFullLine (by decide)
    | cons next pools =>
      exact List.forall_mem_append.2 ⟨hpool.isFullLine (by decide), ih hrest⟩

/-! ## Declarations -/

section

variable {itemNamespace : Text}

/-- The lines of a declaration are those of what its pools show, and none of them is blank. -/
theorem LootTable.plainLines_render {table : LootTable} (h : table.HasLines) {text : Text}
    (htext : table.render itemNamespace = .ok text) :
    ∃ pools, List.Forall₂ (LootPool.Shows itemNamespace) table.pools pools ∧
      text.plainLines = tableLines table.name pools ∧ [] ∉ text.plainLines := by
  obtain ⟨texts, htexts, rfl⟩ := table.render_cases htext
  obtain ⟨pools, hshows, hlines, rfl⟩ := LootPool.renders_show h.entries h.items htexts
  have hpools : pools ≠ [] := by
    rintro rfl
    exact h.pools (List.forall₂_nil_right_iff.1 hshows)
  have hname := h.name.upper (by decide)
  have hopening : Text.IsFullLine
      (indentation 1 ++ "public static final LootTable " ++ table.name.upper ++ " = new LootTable(") :=
    ⟨Text.IsLine.between hname (by decide) (by decide), List.cons_ne_nil _ _⟩
  have hclosing : Text.IsFullLine (indentation 1 ++ ");") := ⟨by decide, List.cons_ne_nil _ _⟩
  have hfull := List.forall_mem_cons.2 ⟨hopening, poolLines_isFullLine hlines⟩
  -- The line feed that opens the pools and the one that closes them end a line each.
  have htext : ("\tpublic static final LootTable " ++ table.name.upper ++ " = new LootTable(\n"
        ++ Text.join ",\n" (pools.map ShownPool.text) ++ "\n\t);" : Text) =
      Text.ofLines ((indentation 1 ++ "public static final LootTable " ++ table.name.upper
        ++ " = new LootTable(") :: poolLines pools) ++ (indentation 1 ++ ");") := by
    have hfirst : (" = new LootTable(\n" : Text) = " = new LootTable(" ++ "\n" := by decide
    have hlast : ("\n\t);" : Text) = "\n" ++ (indentation 1 ++ ");") := by decide
    rw [Text.ofLines_cons, ← join_pools hpools hlines, hfirst, hlast]
    simp only [List.append_assoc]
    rfl
  have hplain := Text.plainLines_ofLines (fun l hl => (hfull l hl).1) hclosing.1
  rw [htext]
  refine ⟨pools, hshows, hplain, fun hblank => ?_⟩
  rw [hplain] at hblank
  exact (List.forall_mem_append.2 ⟨hfull, List.forall_mem_singleton.2 hclosing⟩ [] hblank).2 rfl

end

/-- The lines of a declaration are `tableLines` of what its pools show; the declarations of several
tables are the blocks between the blank lines. -/
theorem declaration_layout (itemNamespace : Text) :
    (∀ (table : LootTable) (text : Text), table.HasLines → table.render itemNamespace = .ok text →
        ∃ pools, List.Forall₂ (LootPool.Shows itemNamespace) table.pools pools ∧
          text.plainLines = tableLines table.name pools) ∧
      ∀ (tables : List LootTable) (text : Text), (∀ t ∈ tables, t.HasLines) →
        renderTables itemNamespace tables = .ok text →
          List.Forall₂ (fun t s => LootTable.render itemNamespace t = .ok s) tables text.blocks := by
  constructor
  · intro table text h htext
    obtain ⟨pools, hshows, hlines, -⟩ := table.plainLines_render h htext
    exact ⟨pools, hshows, hlines⟩
  · intro tables text h htext
    obtain ⟨texts, htexts, htext⟩ := bind_eq_ok_iff.1 htext
    obtain rfl := pure_eq_ok_iff.1 htext
    have htexts := mapM_eq_ok_iff.1 htexts
    have hblank : ∀ s ∈ texts, [] ∉ s.plainLines :=
      forall_of_forall₂ ((List.forall₂_and_left _ _).2 ⟨h, htexts⟩) fun t s ht => by
        obtain ⟨pools, -, -, hblank⟩ := t.plainLines_render ht.1 ht.2
        exact hblank
    rw [Text.blocks_join hblank]
    exact htexts

/-! ### Two tables -/

def twoTables : List LootTable :=
  [⟨"small", [⟨.constant 1, [.empty 2, .item "tnt" 0 []]⟩, ⟨.constant 2, [.empty 0]⟩]⟩,
    ⟨"other", [⟨.constant 3, [.item "bow" 4 [.bare]]⟩]⟩]

theorem twoTables_layout :
    (∀ t ∈ twoTables, t.HasLines) ∧ ∃ text, renderTables "minecraft" twoTables = .ok text ∧
      List.Forall₂ (fun t s => LootTable.render "minecraft" t = .ok s) twoTables text.blocks ∧
      ∀ t ∈ twoTables, ∃ s pools, LootTable.render "minecraft" t = .ok s ∧
        List.Forall₂ (LootPool.Shows "minecraft") t.pools pools ∧
          s.plainLines = tableLines t.name pools := by
  have hlines : ∀ t ∈ twoTables, t.HasLines := by decide
  have hok : (renderTables "minecraft" twoTables).isOk := by decide +kernel
  have heach : ∀ t ∈ twoTables, (LootTable.render "minecraft" t).isOk := by decide +kernel
  refine ⟨hlines, ?_⟩
  cases h : renderTables "minecraft" twoTables with
  | error e =>
    rw [h] at hok
    cases hok
  | ok text =>
    refine ⟨text, rfl, (declaration_layout "minecraft").2 twoTables text hlines h, fun t ht => ?_⟩
    cases hs : LootTable.render "minecraft" t with
    | error e =>
      have ht := heach t ht
      rw [hs] at ht
      cases ht
    | ok s =>
      obtain ⟨pools, hshows, hplain⟩ := (declaration_layout "minecraft").1 t s (hlines t ht) hs
      exact ⟨s, pools, rfl, hshows, hplain⟩

example : tableLines "small"
      [⟨"new ConstantRoll(1)", ["new EmptyEntry(2)", "new ItemEntry(Item.TNT)"]⟩,
        ⟨"new ConstantRoll(2)", ["new EmptyEntry(0)"]⟩] =
    (["\tpublic static final LootTable SMALL = new LootTable(",
      "\t\t\tnew LootPool(new ConstantRoll(1),", "\t\t\t\t\tnew EmptyEntry(2),",
      "\t\t\t\t\tnew ItemEntry(Item.TNT)),", "\t\t\tnew LootPool(new ConstantRoll(2),",
      "\t\t\t\t\tnew EmptyEntry(0))", "\t);"] : List Text) := by
  decide +kernel

end LootTables
