import LootTables.Proofs.Source.Constants
import LootTables.Proofs.Table.Defects

/-!
# Names of tables

A table has one name, whether it is printed or refused. The name is made from that of a file, in upper
case, and the declaration upper-cases it once more. This changes nothing, even where one letter became
several: upper case is its own upper case (`tableName_upper`). So the identifier of a declaration is the
name of the table (`declaredAs_iff_of_loadTable`), and a document that does not decode is refused under
the name that its constant would have had (`table_of_undecodable`).
-/

namespace LootTables

/-! ### From a file name to a name -/

theorem stem_document (base : Text) : stem (base ++ ".json") = base := by
  have hdrop : Text.dropEnd? ".json" (base ++ ".json") = some base :=
    List.isSuffixOf?_eq_some_iff_append_eq.2 rfl
  unfold stem
  rw [hdrop, Option.getD_some]

theorem stem_of_not_suffix {fileName : Text} (h : ¬ (".json" : Text) <:+ fileName) :
    stem fileName = fileName := by
  unfold stem
  cases hdrop : Text.dropEnd? ".json" fileName with
  | none => rfl
  | some base => exact absurd ⟨base, List.isSuffixOf?_eq_some_iff_append_eq.1 hdrop⟩ h

/-! ### From a name to an identifier -/

/-- The text is the identifier under which the declaration of the table declares its pools. -/
def LootTable.DeclaredAs (itemNamespace identifier : Text) (table : LootTable) : Prop :=
  ∃ pools, table.pools.mapM (LootPool.render itemNamespace) = .ok pools ∧
    table.render itemNamespace = .ok ("\tpublic static final LootTable " ++ identifier ++
      " = new LootTable(\n" ++ Text.join ",\n" pools ++ "\n\t);")

theorem LootTable.declaredAs_iff {table : LootTable} {itemNamespace declaration identifier : Text}
    (h : table.render itemNamespace = .ok declaration) :
    table.DeclaredAs itemNamespace identifier ↔ identifier = table.name.upper := by
  obtain ⟨pools, hpools, rfl⟩ := table.render_cases h
  constructor
  · rintro ⟨pools', hpools', h'⟩
    obtain rfl := Except.ok.inj (hpools'.symm.trans (mapM_eq_ok_iff.2 hpools))
    have hdeclaration := Except.ok.inj (h'.symm.trans h)
    simp only [List.append_assoc] at hdeclaration
    exact List.append_cancel_right (List.append_cancel_left hdeclaration)
  · rintro rfl
    exact ⟨pools, mapM_eq_ok_iff.2 hpools, h⟩

section

variable {t : FileTree} {limit : Nat} {p : Path} {suffix : Text}

/-- A table that was loaded is declared, and under no other identifier than its name. -/
theorem declaredAs_iff_of_loadTable {table : LootTable} {itemNamespace identifier : Text}
    (h : loadTable t limit suffix p = .ok table) :
    table.DeclaredAs itemNamespace identifier ↔ identifier = table.name := by
  obtain ⟨declaration, hrender⟩ := render_of_loadTable itemNamespace h
  rw [table.declaredAs_iff hrender, name_of_loadTable h, tableName_upper]

theorem table_of_undecodable {e : DecodeError} (h : loadTable t limit suffix p = .error (.undecodable e)) :
    e.table = tableName p.name suffix := by
  obtain h | ⟨document, d, -, hdecode, hd⟩ := loadTable_error_cases h
  · obtain ⟨_, h⟩ | ⟨_, h⟩ | ⟨_, h⟩ | ⟨_, h⟩ | ⟨_, h⟩ := loadDocument_error_cases h <;> cases h
  · cases hd
    exact (toTable_eq_error_iff.1 hdecode).1

end

namespace Generator

variable {g : Generator} {t : FileTree}

theorem declaredAs_of_tables {tables : List LootTable} (h : g.tables t = .ok tables) :
    ∃ paths, g.sources t = .ok paths ∧ List.Forall₂ (fun p table =>
      table.name = tableName p.name g.config.tableNameSuffix.text ∧
      ∀ itemNamespace identifier,
        table.DeclaredAs itemNamespace identifier ↔ identifier = table.name) paths tables := by
  obtain ⟨paths, hpaths, hload⟩ := tables_eq_ok_iff.1 h
  refine ⟨paths, hpaths, (mapM_eq_ok_iff.1 hload).imp fun p table hp => ?_⟩
  exact ⟨name_of_loadTable hp, fun _ _ => declaredAs_iff_of_loadTable hp⟩

/-- A document that does not decode is the first one that is no table, and it is refused by name. -/
theorem undecodable_of_tables {e : DecodeError} (h : g.tables t = .error (.undecodable e)) :
    ∃ before p after, g.sources t = .ok (before ++ p :: after) ∧
      (∀ q ∈ before, ∃ table,
        loadTable t g.limits.documents g.config.tableNameSuffix.text q = .ok table) ∧
      loadTable t g.limits.documents g.config.tableNameSuffix.text p = .error (.undecodable e) ∧
      e.table = tableName p.name g.config.tableNameSuffix.text := by
  rw [tables_eq] at h
  rcases bind_eq_error_iff.1 h with h | ⟨paths, hpaths, h⟩
  · obtain ⟨_, h⟩ | ⟨_, h⟩ | ⟨_, h⟩ := sources_error_cases h <;> cases h
  · obtain ⟨before, p, after, rfl, hbefore, hp⟩ := mapM_eq_error_iff.1 h
    exact ⟨before, p, after, hpaths, hbefore, hp, table_of_undecodable hp⟩

end Generator

/-- A table is named by the upper case of its file name, without one `.json` at the end, and of the
suffix. Upper-casing a name again changes nothing. So every table that a run loads is declared under its
name and no other identifier, and a document that is refused is refused under the name of its file. -/
theorem identifier_is_name :
    (∀ base suffix : Text, tableName (base ++ ".json") suffix = (base ++ suffix).upper) ∧
    (∀ fileName suffix : Text, ¬ (".json" : Text) <:+ fileName →
      tableName fileName suffix = (fileName ++ suffix).upper) ∧
    (∀ s t : Text, (s ++ t).upper = s.upper ++ t.upper) ∧
    (∀ fileName suffix, (tableName fileName suffix).upper = tableName fileName suffix) ∧
    ∀ (g : Generator) (t : FileTree),
      (∀ tables, g.tables t = .ok tables →
        ∃ paths, g.sources t = .ok paths ∧ List.Forall₂ (fun p table =>
          table.name = tableName p.name g.config.tableNameSuffix.text ∧
          ∀ itemNamespace identifier,
            table.DeclaredAs itemNamespace identifier ↔ identifier = table.name) paths tables) ∧
      ∀ e, g.tables t = .error (.undecodable e) →
        ∃ before p after, g.sources t = .ok (before ++ p :: after) ∧
          (∀ q ∈ before, ∃ table,
            loadTable t g.limits.documents g.config.tableNameSuffix.text q = .ok table) ∧
          loadTable t g.limits.documents g.config.tableNameSuffix.text p = .error (.undecodable e) ∧
          e.table = tableName p.name g.config.tableNameSuffix.text := by
  refine ⟨fun base suffix => ?_, fun fileName suffix h => ?_, Text.upper_append, tableName_upper,
    fun g t => ⟨fun tables => g.declaredAs_of_tables, fun e => g.undecodable_of_tables⟩⟩
  · exact congrArg (fun s => Text.upper (s ++ suffix)) (stem_document base)
  · exact congrArg (fun s => Text.upper (s ++ suffix)) (stem_of_not_suffix h)

/-- A directory with one document, whose bytes are given. -/
def soleTree (fileName : Text) (bytes : Bytes) : FileTree :=
  ((FileTree.empty []).put ["chests"] .directory).put ["chests", fileName] (.file bytes)

/-- A document whose name has a letter with two letters as its upper case. -/
def sharpTree : FileTree := soleTree "straße.json" (noPools.map fun c => UInt8.ofNat c.val)

/-- A document whose name has a ligature, and which is no object. -/
def ligatureTree : FileTree := soleTree "\uFB01sh.json" [0x5B, 0x5D]

theorem sharpTree_tables : chestsGenerator.tables sharpTree = .ok [⟨"STRASSE_CHEST", []⟩] := by
  decide +kernel

theorem ligatureTree_sources :
    chestsGenerator.sources ligatureTree = .ok [⟨.root, ["chests", "\uFB01sh.json"]⟩] := by
  decide +kernel

theorem ligatureTree_tables : chestsGenerator.tables ligatureTree =
    .error (.undecodable ⟨⟨[], .notObject .array⟩, "FISH_CHEST"⟩) := by
  decide +kernel

theorem sharpTree_names :
    tableName "\uFB02oor.JSON" "_CHEST" = ("\uFB02oor.JSON" ++ "_CHEST" : Text).upper ∧
    (∃ table, chestsGenerator.tables sharpTree = .ok [table] ∧ table.name = "STRASSE_CHEST" ∧
      table.DeclaredAs "minecraft" table.name ∧ ¬ table.DeclaredAs "minecraft" "STRAßE_CHEST") ∧
    ∃ e, chestsGenerator.tables ligatureTree = .error (.undecodable e) ∧
      e.table = tableName "\uFB01sh.json" "_CHEST" := by
  obtain ⟨-, hwhole, -, -, hruns⟩ := identifier_is_name
  refine ⟨hwhole _ _ (by decide), ?_, ?_⟩
  · obtain ⟨paths, -, hpaths⟩ := (hruns chestsGenerator sharpTree).1 _ sharpTree_tables
    obtain ⟨p, _, ⟨-, hdeclared⟩, -⟩ := List.forall₂_cons_right_iff.1 hpaths
    refine ⟨_, sharpTree_tables, rfl, (hdeclared _ _).2 rfl, fun h => ?_⟩
    exact absurd ((hdeclared _ _).1 h) (by decide)
  · obtain ⟨before, p, after, hsources, -, -, htable⟩ :=
      (hruns chestsGenerator ligatureTree).2 _ ligatureTree_tables
    have hpaths := Except.ok.inj (hsources.symm.trans ligatureTree_sources)
    have hp : p ∈ before ++ p :: after := List.mem_append_right _ List.mem_cons_self
    rw [hpaths, List.mem_singleton] at hp
    subst hp
    exact ⟨_, ligatureTree_tables, htable⟩

end LootTables
