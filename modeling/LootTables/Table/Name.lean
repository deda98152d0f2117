import LootTables.Text.Upper

/-!
# Names in the generated code

Tables and items are constants in the generated code, so their names are upper case.
-/

namespace LootTables

/-- The constant of the table in a file: the file name without `.json` at its end and with a
suffix instead. -/
def tableName (fileName suffix : Text) : Text :=
  Text.upper ((Text.dropEnd? ".json" fileName).getD fileName ++ suffix)

/-- The constant of an item: its name without the namespace in front. -/
def itemConstant (itemNamespace name : Text) : Text :=
  Text.upper ((Text.dropStart? (itemNamespace ++ ":") name).getD name)

end LootTables
