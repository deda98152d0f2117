import LootTables.Proofs.Output.Agreement
import LootTables.Proofs.Output.Scan
import LootTables.Proofs.Source.Batch
import LootTables.Proofs.Table.Unambiguous

/-!
# Generated texts are properly nested

When no name has a bracket or a line break in it, all brackets of a generated text are those of the
generator, which closes what it opens at each level, and every line begins with a word of the generator,
so that none is a comment. Each level is scanned on its own: an entry, a pool or a table begins a line and
leaves no bracket open, and rolls and functions do the same in the middle of a line. Upper-casing a name
makes neither a bracket nor a line break (`Text.IsHarmless.upper`).

So the check before writing never refuses such a text (`generate_nested`).
-/

namespace LootTables

/-! ### Harmless texts -/

/-- The structural code points. -/
def structuralMarks : List Text.Upper.Progression :=
  Text.lineBreakRanges.map (fun r => ⟨r.1, r.2, 1⟩) ++
    Brackets.checked.flatMap fun b => [.point b.opening.val, .point b.closing.val]

theorem CodePoint.exists_structuralMark {c : CodePoint} (h : c.isStructural) :
    ∃ q ∈ structuralMarks, q.Has c.val := by
  unfold isStructural at h
  rw [Bool.or_eq_true, Text.isLineBreak, isIn, List.any_eq_true, List.any_eq_true] at h
  rcases h with ⟨r, hr, hc⟩ | ⟨b, hb, hc⟩
  · rw [Bool.and_eq_true, decide_eq_true_iff, decide_eq_true_iff] at hc
    exact ⟨_, List.mem_append_left _ (List.mem_map_of_mem hr), hc.1, hc.2, Nat.mod_one _⟩
  · rw [Bool.or_eq_true, decide_eq_true_iff, decide_eq_true_iff] at hc
    rcases hc with rfl | rfl
    · exact ⟨.point b.opening.val, List.mem_append_right _ (List.mem_flatMap.2 ⟨b, hb, by simp⟩),
        Text.Upper.Progression.has_point_iff.2 rfl⟩
    · exact ⟨.point b.closing.val, List.mem_append_right _ (List.mem_flatMap.2 ⟨b, hb, by simp⟩),
        Text.Upper.Progression.has_point_iff.2 rfl⟩

/-- Numerals and literals are made of code points between the brackets. -/
theorem IsLiteral.not_isStructural {c : CodePoint} (h : IsLiteral c) : ¬c.isStructural := by
  intro hc
  obtain ⟨q, hq, hfirst, hlast, -⟩ := CodePoint.exists_structuralMark hc
  have hmarks : ∀ q ∈ structuralMarks, q.last < 0x2A ∨ 0x7A < q.first := by decide
  have hval : 0x2A ≤ c.val ∧ c.val ≤ 0x7A := by
    rcases h with (hdigit | rfl) | rfl | rfl
    · obtain ⟨hlow, hhigh⟩ := of_decide_eq_true hdigit
      omega
    · decide
    · decide
    · decide
  have hq := hmarks q hq
  omega

namespace Text

variable {s t : Text}

theorem IsHarmless.subset (h : s.IsHarmless) (hsub : ∀ c ∈ t, c ∈ s) : t.IsHarmless :=
  fun c hc => h c (hsub c hc)

theorem IsHarmless.append (hs : s.IsHarmless) (ht : t.IsHarmless) : IsHarmless (s ++ t) :=
  fun c hc => (List.mem_append.1 hc).elim (hs c) (ht c)

theorem isHarmless_ofInt (n : Int) : (ofInt n).IsHarmless :=
  fun _ hc => IsLiteral.not_isStructural (.inl (isNumeral_of_mem_ofInt hc))

/-- No letter becomes a bracket or a line break. -/
theorem IsHarmless.upper (h : s.IsHarmless) : s.upper.IsHarmless := by
  intro c hc hstructural
  refine h c (mem_upper_of_not_isImage ?_ hc) hstructural
  exact Upper.not_isImage_of_apart (by decide +kernel) (CodePoint.exists_structuralMark hstructural)

end Text

theorem isHarmless_itemConstant {name : Text} (h : name.IsHarmless) (itemNamespace : Text) :
    (itemConstant itemNamespace name).IsHarmless := by
  unfold itemConstant
  apply Text.IsHarmless.upper
  cases hdrop : Text.dropStart? (itemNamespace ++ ":") name with
  | none => exact h
  | some rest =>
    have hname := List.isPrefixOf?_eq_some_iff_append_eq.1 hdrop
    exact h.subset fun c hc => hname ▸ List.mem_append_right _ hc

section

variable {n weight : Int} {min max : Number} {a : Text}

theorem isHarmless_renderInteger (h : renderInteger n = .ok a) : a.IsHarmless := by
  obtain ⟨-, rfl⟩ := renderInteger_eq_ok_iff.1 h
  exact Text.isHarmless_ofInt n

theorem isHarmless_literal (h : min.literal = .ok a) : a.IsHarmless := by
  obtain ⟨s, -, hs⟩ := bind_eq_ok_iff.1 h
  exact fun c hc => (s.isLiteral_of_mem hs hc).not_isStructural

theorem isHarmless_renderBounds (h : renderBounds min max = .ok a) : a.IsHarmless := by
  obtain ⟨low, hlow, h⟩ := bind_eq_ok_iff.1 h
  obtain ⟨high, hhigh, h⟩ := bind_eq_ok_iff.1 h
  obtain rfl := pure_eq_ok_iff.1 h
  have hseparator : Text.IsHarmless ", " := by decide
  exact ((isHarmless_literal (mapError_eq_ok_iff.1 hlow)).append hseparator).append
    (isHarmless_literal (mapError_eq_ok_iff.1 hhigh))

theorem isHarmless_renderWeight (h : renderWeight weight = .ok a) : a.IsHarmless := by
  unfold renderWeight at h
  split at h
  · cases h
    exact fun c hc => absurd hc List.not_mem_nil
  · obtain ⟨s, hs, h⟩ := bind_eq_ok_iff.1 h
    obtain rfl := pure_eq_ok_iff.1 h
    have hseparator : Text.IsHarmless ", " := by decide
    exact hseparator.append (isHarmless_renderInteger hs)

end

/-! ### Pieces of a text -/

namespace Scan

variable {before between after fresh fresh' : Bool}
  {start middle stop : Text} {texts : List Text}

/-- What the beginning opens and the end closes stays open in the middle. -/
theorem scans_enclosed (opened : List Brackets) (hstart : Scans ⟨[], before⟩ start ⟨opened, between⟩)
    (hmiddle : Scans ⟨[], between⟩ middle ⟨[], fresh⟩)
    (hstop : Scans ⟨opened, fresh⟩ stop ⟨[], after⟩) :
    Scans ⟨[], before⟩ (start ++ middle ++ stop) ⟨[], after⟩ :=
  (hstart.append (hmiddle.under opened)).append hstop

theorem scans_flatten (h : ∀ a ∈ texts, Scans ⟨[], false⟩ a ⟨[], false⟩) :
    Scans ⟨[], false⟩ texts.flatten ⟨[], false⟩ := by
  induction texts with
  | nil => exact scans_nil.2 rfl
  | cons a texts ih =>
    obtain ⟨ha, htexts⟩ := List.forall_mem_cons.1 h
    exact ha.append (ih htexts)

/-- Texts that begin a line each may be joined by something that ends a line. -/
theorem scans_join (separator : Text)
    (hseparator : Scans ⟨[], false⟩ separator ⟨[], true⟩)
    (h : ∀ a ∈ texts, Scans ⟨[], true⟩ a ⟨[], false⟩) :
    ∃ fresh, Scans ⟨[], true⟩ (Text.join separator texts) ⟨[], fresh⟩ := by
  cases texts with
  | nil => exact ⟨true, scans_nil.2 rfl⟩
  | cons a texts =>
    obtain ⟨ha, htexts⟩ := List.forall_mem_cons.1 h
    have hrest : Scans ⟨[], false⟩ (texts.map (separator ++ ·)).flatten ⟨[], false⟩ :=
      scans_flatten (List.forall_mem_map.2 fun b hb => hseparator.append (htexts b hb))
    rw [Text.join_cons, List.flatMap_def]
    exact ⟨false, ha.append hrest⟩

end Scan

open Scan

/-- The pairs of brackets that the generator makes. -/
def parentheses : Brackets := ⟨'(', ')'⟩

def braces : Brackets := ⟨'\x7b', '\x7d'⟩

/-! ### Rolls and functions -/

theorem Roll.scans_render {x : Roll} {a : Text} (h : x.render = .ok a) :
    Scans ⟨[], false⟩ a ⟨[], false⟩ := by
  cases x with
  | misplaced kind => cases h
  | constant n =>
    obtain ⟨s, hs, h⟩ := bind_eq_ok_iff.1 h
    obtain rfl := pure_eq_ok_iff.1 h
    exact scans_enclosed [parentheses] (by decide)
      (scans_of_isHarmless (isHarmless_renderInteger hs) []) (by decide)
  | uniform min max =>
    obtain ⟨s, hs, h⟩ := bind_eq_ok_iff.1 h
    obtain rfl := pure_eq_ok_iff.1 h
    exact scans_enclosed [parentheses] (by decide)
      (scans_of_isHarmless (isHarmless_renderBounds hs) []) (by decide)

theorem LootFunction.scans_render {f : LootFunction} {a : Text} (h : f.render = .ok a) :
    Scans ⟨[], false⟩ a ⟨[], false⟩ := by
  rcases f.render_cases h with ⟨n, s, -, hs, rfl⟩ | ⟨min, max, s, -, hs, rfl⟩ | ⟨hcomment, rfl⟩
  · exact scans_enclosed [parentheses, parentheses] (by decide)
      (scans_of_isHarmless (isHarmless_renderInteger hs) []) (by decide)
  · exact scans_enclosed [parentheses, parentheses] (by decide)
      (scans_of_isHarmless (isHarmless_renderBounds hs) []) (by decide)
  · have hname : f.name.IsHarmless := by
      rcases hcomment with rfl | ⟨m, rfl⟩
      · decide
      · cases m <;> decide
    exact scans_enclosed [] (by decide) (scans_of_isHarmless hname []) (by decide)

/-! ### Entries -/

/-- The name of an item has no brackets and no line breaks. -/
def Entry.HasHarmlessName : Entry → Prop
  | .item name _ _ => name.IsHarmless
  | _ => True

instance (entry : Entry) : Decidable entry.HasHarmlessName :=
  match entry with
  | .item name _ _ => inferInstanceAs (Decidable name.IsHarmless)
  | .empty _ | .misplaced _ => .isTrue trivial

/-- The names of all items of a pool are harmless. -/
def LootPool.HasHarmlessNames (pool : LootPool) : Prop := ∀ e ∈ pool.entries, e.HasHarmlessName

instance (pool : LootPool) : Decidable pool.HasHarmlessNames :=
  inferInstanceAs (Decidable (∀ e ∈ pool.entries, e.HasHarmlessName))

/-- The names of a table and of all its items are harmless. -/
structure LootTable.HasHarmlessNames (table : LootTable) : Prop where
  name : table.name.IsHarmless
  pools : ∀ p ∈ table.pools, p.HasHarmlessNames

instance (table : LootTable) : Decidable table.HasHarmlessNames :=
  decidable_of_iff (table.name.IsHarmless ∧ ∀ p ∈ table.pools, p.HasHarmlessNames)
    ⟨fun ⟨name, pools⟩ => ⟨name, pools⟩, fun ⟨name, pools⟩ => ⟨name, pools⟩⟩

section

variable {itemNamespace a : Text}

theorem Entry.scans_render {entry : Entry} (harmless : entry.HasHarmlessName)
    (h : entry.render itemNamespace = .ok a) : Scans ⟨[], true⟩ a ⟨[], false⟩ := by
  rcases entry.render_cases h with
    ⟨weight, s, -, hs, rfl⟩ | ⟨name, weight, functions, s, calls, rfl, hs, hcalls, rfl⟩
  · exact scans_enclosed [parentheses] (by decide)
      (scans_of_isHarmless (isHarmless_renderInteger hs) []) (by decide)
  · have hargument := (isHarmless_itemConstant harmless itemNamespace).append
      (isHarmless_renderWeight hs)
    have hentry : Scans ⟨[], true⟩
        ("\t\t\t\t\tnew ItemEntry(Item." ++ (itemConstant itemNamespace name ++ s) ++ ")")
        ⟨[], false⟩ :=
      scans_enclosed [parentheses] (by decide) (scans_of_isHarmless hargument []) (by decide)
    rw [← List.append_assoc] at hentry
    exact hentry.append (scans_flatten (forall_of_forall₂ hcalls fun _ _ => LootFunction.scans_render))

/-! ### Pools and tables -/

theorem LootPool.scans_render {pool : LootPool} (harmless : pool.HasHarmlessNames)
    (h : pool.render itemNamespace = .ok a) : Scans ⟨[], true⟩ a ⟨[], false⟩ := by
  obtain ⟨rolls, entries, hrolls, hentries, rfl⟩ := pool.render_cases h
  obtain ⟨fresh, hentries⟩ := scans_join ",\n" (by decide)
    (forall_of_forall₂ ((List.forall₂_and_left _ _).2 ⟨harmless, hentries⟩)
      fun _ _ he => Entry.scans_render he.1 he.2)
  have hstart : Scans ⟨[], true⟩ "\t\t\tnew LootPool(" ⟨[parentheses], false⟩ := by decide
  have hseparator : Scans ⟨[], false⟩ ",\n" ⟨[], true⟩ := by decide
  have hstop : ∀ fresh, Scans ⟨[parentheses], fresh⟩ ")" ⟨[], false⟩ := by decide
  have hmiddle := (Roll.scans_render hrolls).append (hseparator.append hentries)
  have hpool := scans_enclosed [parentheses] hstart hmiddle (hstop fresh)
  simpa only [List.append_assoc] using hpool

theorem LootTable.scans_render {table : LootTable} (harmless : table.HasHarmlessNames)
    (h : table.render itemNamespace = .ok a) : Scans ⟨[], true⟩ a ⟨[], false⟩ := by
  obtain ⟨pools, hpools, rfl⟩ := table.render_cases h
  obtain ⟨fresh, hpools⟩ := scans_join ",\n" (by decide)
    (forall_of_forall₂ ((List.forall₂_and_left _ _).2 ⟨harmless.pools, hpools⟩)
      fun _ _ hp => LootPool.scans_render hp.1 hp.2)
  have hstart : Scans ⟨[], true⟩ "\tpublic static final LootTable " ⟨[], false⟩ := by decide
  have hopen : Scans ⟨[], false⟩ " = new LootTable(\n" ⟨[parentheses], true⟩ := by decide
  have hstop : ∀ fresh, Scans ⟨[parentheses], fresh⟩ "\n\t);" ⟨[], false⟩ := by decide
  have hname := scans_of_isHarmless harmless.name.upper []
  exact (((hstart.append hname).append hopen).append (hpools.under [parentheses])).append (hstop fresh)

theorem scans_renderTables {tables : List LootTable} (harmless : ∀ t ∈ tables, t.HasHarmlessNames)
    (h : renderTables itemNamespace tables = .ok a) : ∃ fresh, Scans ⟨[], true⟩ a ⟨[], fresh⟩ := by
  obtain ⟨texts, htexts, h⟩ := bind_eq_ok_iff.1 h
  obtain rfl := pure_eq_ok_iff.1 h
  exact scans_join "\n\n" (by decide)
    (forall_of_forall₂ ((List.forall₂_and_left _ _).2 ⟨harmless, mapM_eq_ok_iff.1 htexts⟩)
      fun _ _ ht => LootTable.scans_render ht.1 ht.2)

end

/-! ### The frame -/

namespace Generator

variable {g : Generator} {t : FileTree} {commandLine : Except FileError Text} {body : Text}

/-- The package and the class have no brackets and no line breaks in their names, if they are shown. -/
structure HasHarmlessNames (g : Generator) : Prop where
  package : g.config.packageName.isYes → g.config.packageName.text.IsHarmless
  className : g.config.className.isYes → g.config.className.text.IsHarmless

/-- The header opens a brace if there is a class. -/
theorem scans_header (harmless : g.HasHarmlessNames) :
    Scans ⟨[], true⟩ (header [] g.config.packageName g.config.className)
      ⟨if g.config.className.isYes then [braces] else [], true⟩ := by
  have hpackage : Scans ⟨[], true⟩ (if g.config.packageName.isYes then
      "package " ++ g.config.packageName.text ++ ";\n\n" else []) ⟨[], true⟩ := by
    split
    · next hyes =>
      exact scans_enclosed [] (by decide) (scans_of_isHarmless (harmless.package hyes) []) (by decide)
    · exact scans_nil.2 rfl
  have hclass : Scans ⟨[], true⟩ (if g.config.className.isYes then
      "public class " ++ g.config.className.text ++ " \x7b\n\n" else [])
      ⟨if g.config.className.isYes then [braces] else [], true⟩ := by
    split
    · next hyes =>
      have hstart : Scans ⟨[], true⟩ "public class " ⟨[], false⟩ := by decide
      have hopen : Scans ⟨[], false⟩ " \x7b\n\n" ⟨[braces], true⟩ := by decide
      exact (hstart.append (scans_of_isHarmless (harmless.className hyes) [])).append hopen
    · exact scans_nil.2 rfl
  exact hpackage.append hclass

/-- The footer closes what the header opens. -/
theorem scans_footer (className : Json) :
    Scans ⟨if className.isYes then [braces] else [], true⟩ (footer className) ⟨[], true⟩ := by
  unfold footer
  split
  · decide
  · exact scans_nil.2 rfl

theorem scans_frame (harmless : g.HasHarmlessNames) {fresh : Bool}
    (hbody : Scans ⟨[], true⟩ body ⟨[], fresh⟩) :
    Scans ⟨[], true⟩ (g.frame [] body) ⟨[], true⟩ := by
  have hbreak : ∀ fresh, Scans ⟨[], fresh⟩ "\n" ⟨[], true⟩ := by decide
  have hinner := (hbody.append (hbreak fresh)).under (if g.config.className.isYes then [braces] else [])
  have hall := ((scans_header harmless).append hinner).append (scans_footer g.config.className)
  unfold frame
  simpa only [List.append_assoc] using hall

/-- A run whose text is balanced does not fail for the balance. -/
theorem write_ne_unbalanced {content : Text} (h : g.generate t commandLine = .ok content)
    (hbalance : imbalance? content = none) (output : Path) (i : Imbalance) (t' : FileTree) :
    g.write output commandLine t ≠ .error (.write (.unbalanced i)) t' := by
  intro hwrite
  cases houtput : g.config.output with
  | value v =>
    rw [write_apply, h, houtput] at hwrite
    cases hwrite
  | missing =>
    rw [write_apply, h, houtput] at hwrite
    cases hwrite
  | settings s =>
    rw [write_of_generate_ok h houtput] at hwrite
    cases hs : s.write output content t with
    | ok _ t₁ =>
      rw [hs] at hwrite
      cases hwrite
    | error e t₁ =>
      rw [hs] at hwrite
      cases hwrite
      exact (FileM.ends_iff.1 (s.write_ends_balanced hbalance i)).2 _ _ hs (WriteError.SameClass.refl _)

end Generator

/-- For every source tree whose documents load, and every configuration, when no name in the tables, of
the package or of the class has a bracket or a line break and there is no comment, the text is generated,
and read from the left no bracket in it is closed before it is opened and none stays open. The check
before writing accepts it, so no run fails for it. -/
theorem generate_nested (g : Generator) (t : FileTree) (commandLine : Except FileError Text)
    (tables : List LootTable) (htables : g.tables t = .ok tables)
    (hnames : ∀ table ∈ tables, table.HasHarmlessNames) (hframe : g.HasHarmlessNames)
    (hcomment : g.config.generationComment.isYes = false) :
    ∃ content, g.generate t commandLine = .ok content ∧
      (∀ b ∈ Brackets.checked, (∀ read, read <+: content → 0 ≤ b.depth read) ∧ b.depth content = 0) ∧
      imbalance? content = none ∧
      ∀ output i t', g.write output commandLine t ≠ .error (.write (.unbalanced i)) t' := by
  obtain ⟨body, hbody⟩ := Generator.exists_renderTables htables
  obtain ⟨fresh, hscans⟩ := scans_renderTables hnames hbody
  have hscans := Generator.scans_frame hframe hscans
  have hnone : g.comment commandLine = .ok [] := by
    unfold Generator.comment
    rw [hcomment]
    rfl
  have hgenerate : g.generate t commandLine = .ok (g.frame [] body) :=
    Generator.generate_eq_ok_iff.2 ⟨tables, body, [], htables, hbody, hnone, rfl⟩
  refine ⟨_, hgenerate, fun b hb => ⟨fun read hread => hscans.depth_nonneg hb hread,
    hscans.depth_eq_zero hb⟩, hscans.imbalance?_eq_none, fun output i t' => ?_⟩
  exact Generator.write_ne_unbalanced hgenerate hscans.imbalance?_eq_none output i t'

/-- A document with one item. -/
def tntChest : Text :=
  "\x7b\"pools\":[\x7b\"rolls\":1,\"entries\":[\x7b\"type\":\"minecraft:item\",\"name\":\"minecraft:tnt\"\x7d]\x7d]\x7d"

/-- A directory with nothing but this document. -/
def tntTree : FileTree :=
  ((FileTree.empty []).put ["chests"] .directory).put ["chests", "tnt.json"]
    (.file (tntChest.map fun c => UInt8.ofNat c.val))

/-- A generator that puts the tables of this directory into a class of a package. -/
def classGenerator : Generator :=
  .ofConfig ⟨.root, ["chests"]⟩ { packageName := .string "loot", className := .string "Chests" }

theorem classGenerator_nested :
    ∃ tables content, classGenerator.tables tntTree = .ok tables ∧ tables ≠ [] ∧
      classGenerator.generate tntTree (.ok []) = .ok content ∧
      (∀ b ∈ Brackets.checked, (∀ read, read <+: content → 0 ≤ b.depth read) ∧ b.depth content = 0) ∧
      ∀ output i t', classGenerator.write output (.ok []) tntTree ≠ .error (.write (.unbalanced i)) t' := by
  obtain ⟨tables, htables, hnames⟩ := exists_eq_ok_of_any (x := classGenerator.tables tntTree)
    (p := fun tables => tables ≠ [] ∧ ∀ table ∈ tables, table.HasHarmlessNames) (by decide +kernel)
  obtain ⟨hne, hnames⟩ := of_decide_eq_true hnames
  have hframe : classGenerator.HasHarmlessNames := ⟨fun _ => by decide, fun _ => by decide⟩
  obtain ⟨content, hgenerate, hdepth, -, hwrite⟩ :=
    generate_nested classGenerator tntTree (.ok []) tables htables hnames hframe rfl
  exact ⟨tables, content, htables, hne, hgenerate, hdepth, hwrite⟩

end LootTables
