import LootTables.Proofs.Source.Batch
import LootTables.Proofs.Table.Unambiguous

/-!
# The constants of a batch

Each source declares one constant, which is made from the last name of its path only. All constants
have the same suffix, so two of them differ exactly if the names of the files, without `.json` at the
end, differ in upper case (`tableName_inj`). Nothing else keeps them apart: a run declares distinct
constants exactly if no two of its sources agree in this (`generate_constants`), and documents of the
same name in two directories declare the same constant twice (`twinTree_declares_twice`).
-/

namespace LootTables

/-- The name of a file without `.json` at its end. -/
def stem (fileName : Text) : Text := (Text.dropEnd? ".json" fileName).getD fileName

theorem tableName_inj {a b suffix : Text} :
    tableName a suffix = tableName b suffix ↔ (stem a).upper = (stem b).upper := by
  unfold tableName stem
  rw [Text.upper_append, Text.upper_append]
  exact List.append_left_inj _

/-- The text is the declaration of a constant. -/
def DeclaresConstant (constant declaration : Text) : Prop :=
  ∃ rest, declaration =
    "\tpublic static final LootTable " ++ constant ++ " = new LootTable(\n" ++ rest

/-- The name of a table is upper case already. -/
theorem tableName_upper (fileName suffix : Text) :
    (tableName fileName suffix).upper = tableName fileName suffix :=
  Text.upper_upper _

theorem name_of_loadTable {t : FileTree} {limit : Nat} {suffix : Text} {p : Path} {table : LootTable}
    (h : loadTable t limit suffix p = .ok table) : table.name = tableName p.name suffix := by
  obtain ⟨document, -, htable⟩ := bind_eq_ok_iff.1 h
  exact (toTable_eq_ok_iff.1 (mapError_eq_ok_iff.1 htable)).1

/-- What a file declares is the constant of its name. -/
theorem declaresConstant_of_loadTable {t : FileTree} {limit : Nat}
    {suffix itemNamespace declaration : Text} {p : Path} {table : LootTable}
    (hload : loadTable t limit suffix p = .ok table)
    (hrender : table.render itemNamespace = .ok declaration) :
    DeclaresConstant (tableName p.name suffix) declaration := by
  obtain ⟨pools, -, hdeclaration⟩ := table.render_cases hrender
  rw [name_of_loadTable hload, tableName_upper, List.append_assoc] at hdeclaration
  exact ⟨_, hdeclaration⟩

/-- The constants that a run declares, one for each source in their order. They are distinct exactly
if the names of the sources, without directories and without `.json`, are distinct in upper case. -/
theorem generate_constants (g : Generator) (t : FileTree) (commandLine : Except FileError Text)
    (content : Text) (h : g.generate t commandLine = .ok content) :
    ∃ paths declarations comment, g.sources t = .ok paths ∧
      List.Forall₂ (fun p => DeclaresConstant (tableName p.name g.config.tableNameSuffix.text)) paths
        declarations ∧
      content = g.frame comment (Text.join "\n\n" declarations) ∧
      ((paths.map fun p => tableName p.name g.config.tableNameSuffix.text).Nodup ↔
        paths.Pairwise fun p q => (stem p.name).upper ≠ (stem q.name).upper) := by
  obtain ⟨loaded, body, comment, hloaded, hbody, -, rfl⟩ := Generator.generate_eq_ok_iff.1 h
  obtain ⟨paths, hpaths, hload⟩ := Generator.tables_eq_ok_iff.1 hloaded
  obtain ⟨declarations, hdeclarations, hjoin⟩ := bind_eq_ok_iff.1 hbody
  obtain rfl := pure_eq_ok_iff.1 hjoin
  refine ⟨paths, declarations, comment, hpaths, ?_, rfl, ?_⟩
  · refine (forall₂_comp (mapM_eq_ok_iff.1 hload) (mapM_eq_ok_iff.1 hdeclarations)).imp ?_
    rintro p declaration ⟨table, htable, hrender⟩
    exact declaresConstant_of_loadTable htable hrender
  · rw [List.Nodup, List.pairwise_map]
    exact List.Pairwise.iff fun p q => not_congr tableName_inj

/-- A directory with two documents of the same name, each in a directory of its own. -/
def twinTree : FileTree where
  workingDirectory := []
  entries :=
    [(["chests"], .directory),
      (["chests", "end"], .directory),
      (["chests", "end", "bastion.json"], .file (noPools.map fun c => UInt8.ofNat c.val)),
      (["chests", "nether"], .directory),
      (["chests", "nether", "bastion.json"], .file (noPools.map fun c => UInt8.ofNat c.val))]
  nodup := by decide

/-- What either of them declares. -/
def twinDeclaration : Text := "\tpublic static final LootTable BASTION_CHEST = new LootTable(\n\n\t);"

def twinNames : List (List Text) := [["end", "bastion.json"], ["nether", "bastion.json"]]

theorem twinTree_find : twinTree.find chestsGenerator.source = .ok (["chests"], .directory) := by decide

theorem twinTree_discovered :
    twinTree.discovered ["chests"] (fun depth => (depth : Int) ≤ 3) = twinNames := by
  unfold FileTree.discovered
  rw [List.mergeSort_of_pairwise (by decide +kernel)]
  decide +kernel

theorem twinTree_tables :
    chestsGenerator.tables twinTree = .ok [⟨"BASTION_CHEST", []⟩, ⟨"BASTION_CHEST", []⟩] := by
  have hload : twinNames.mapM (chestsGenerator.load twinTree) =
      .ok [⟨"BASTION_CHEST", []⟩, ⟨"BASTION_CHEST", []⟩] := by decide +kernel
  rw [Generator.tables_eq_mapM (by decide) (by decide) twinTree_find (by decide) rfl]
  exact (congrArg _ twinTree_discovered).trans hload

theorem twinTree_text :
    chestsGenerator.generate twinTree (.ok []) =
      .ok (twinDeclaration ++ "\n\n" ++ twinDeclaration ++ "\n") :=
  Generator.generate_eq_ok_iff.2 ⟨_, twinDeclaration ++ "\n\n" ++ twinDeclaration, [],
    twinTree_tables, by decide +kernel, rfl, rfl⟩

/-- One constant is declared twice. -/
theorem twinTree_declares_twice :
    chestsGenerator.generate twinTree (.ok []) =
        .ok (twinDeclaration ++ "\n\n" ++ twinDeclaration ++ "\n") ∧
      DeclaresConstant "BASTION_CHEST" twinDeclaration :=
  ⟨twinTree_text, "\n\t);", by decide +kernel⟩

/-- The two sources agree in the name of their file. -/
theorem twinTree_constants :
    ∃ paths declarations comment, chestsGenerator.sources twinTree = .ok paths ∧
      List.Forall₂ (fun p => DeclaresConstant (tableName p.name "_CHEST")) paths declarations ∧
      twinDeclaration ++ "\n\n" ++ twinDeclaration ++ "\n" =
        chestsGenerator.frame comment (Text.join "\n\n" declarations) ∧
      ¬ (paths.map fun p => tableName p.name "_CHEST").Nodup := by
  obtain ⟨paths, declarations, comment, hpaths, hconstants, hframe, hdistinct⟩ :=
    generate_constants chestsGenerator twinTree (.ok []) _ twinTree_text
  have hsources : chestsGenerator.sources twinTree =
      .ok (twinNames.map chestsGenerator.source.append) :=
    twinTree_discovered ▸ sources_eq_discovered (by decide) (by decide) twinTree_find (by decide) rfl
  obtain rfl := Except.ok.inj (hpaths.symm.trans hsources)
  refine ⟨_, declarations, comment, hpaths, hconstants, hframe, fun hnodup => ?_⟩
  exact List.rel_of_pairwise_cons (hdistinct.1 hnodup) List.mem_cons_self rfl

end LootTables
