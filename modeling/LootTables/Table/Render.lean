import LootTables.Number.Integer
import LootTables.Table.Model
import LootTables.Table.Name

/-!
# Generating declarations

`LootTable.render` writes a table as the declaration of a constant. Each pool and each entry has
a line of its own, indented by three and five tabs; the functions of an entry follow it on its
line. Neighbours are separated by a comma at the end of the line, tables by a blank line.
-/

namespace LootTables

/-- Why a model has no declaration. -/
inductive RenderError where
  | unknownRoll (kind : NodeKind)
  | unknownEntry (kind : NodeKind)
  | bound (error : BoundError)
  | numeral (error : NumeralError)
deriving DecidableEq

/-- The wording of a refusal. -/
def RenderError.message : RenderError → Text
  | .unknownRoll kind => "Unknown roll type: " ++ kind.name
  | .unknownEntry kind => "Unknown entry type: " ++ kind.name
  | .bound e => e.message
  | .numeral e => e.message

/-- An integer argument. -/
def renderInteger (n : Int) : Except RenderError Text := (writeNumeral n).mapError .numeral

/-- The two bounds of a range as arguments. -/
def renderBounds (min max : Number) : Except RenderError Text := do
  let low ← min.literal.mapError .bound
  let high ← max.literal.mapError .bound
  return low ++ ", " ++ high

/-- The number of rolls. -/
def Roll.render : Roll → Except RenderError Text
  | .constant value => do return "new ConstantRoll(" ++ (← renderInteger value) ++ ")"
  | .uniform min max => do return "new UniformRoll(" ++ (← renderBounds min max) ++ ")"
  | .misplaced kind => .error (.unknownRoll kind)

/-- A function after its entry: a call, or a comment that names it. -/
def LootFunction.render : LootFunction → Except RenderError Text
  | .constantCount count => do return ".apply(constant(" ++ (← renderInteger count) ++ "))"
  | .uniformCount min max => do return ".apply(uniform(" ++ (← renderBounds min max) ++ "))"
  | f => .ok (" /* " ++ f.name ++ " */ ")

/-- The weight as a further argument; none when it is not set. -/
def renderWeight (weight : Int) : Except RenderError Text :=
  if weight = 0 then .ok [] else do return ", " ++ (← renderInteger weight)

/-- An entry with its functions. -/
def Entry.render (itemNamespace : Text) : Entry → Except RenderError Text
  | .empty weight => do return "\t\t\t\t\tnew EmptyEntry(" ++ (← renderInteger weight) ++ ")"
  | .item name weight functions => do
    let weight ← renderWeight weight
    let calls ← functions.mapM LootFunction.render
    return "\t\t\t\t\tnew ItemEntry(Item." ++ itemConstant itemNamespace name ++ weight ++ ")"
      ++ calls.flatten
  | .misplaced kind => .error (.unknownEntry kind)

/-- A pool: its rolls, then its entries. The entries are generated first. -/
def LootPool.render (itemNamespace : Text) (pool : LootPool) : Except RenderError Text := do
  let entries ← pool.entries.mapM (Entry.render itemNamespace)
  let rolls ← pool.rolls.render
  return "\t\t\tnew LootPool(" ++ rolls ++ ",\n" ++ Text.join ",\n" entries ++ ")"

/-- The declaration of a table. -/
def LootTable.render (itemNamespace : Text) (table : LootTable) : Except RenderError Text := do
  let pools ← table.pools.mapM (LootPool.render itemNamespace)
  return "\tpublic static final LootTable " ++ table.name.upper ++ " = new LootTable(\n"
    ++ Text.join ",\n" pools ++ "\n\t);"

/-- The declarations of several tables. -/
def renderTables (itemNamespace : Text) (tables : List LootTable) : Except RenderError Text := do
  return Text.join "\n\n" (← tables.mapM (LootTable.render itemNamespace))

end LootTables
