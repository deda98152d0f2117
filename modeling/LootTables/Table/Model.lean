import LootTables.Number.Bound

/-!
# Loot tables

A loot table is a list of pools. A pool is drawn from a number of times, its rolls, and each time
gives one of its entries: nothing, or an item to which functions are applied in order.

Rolls and set-count functions come in a constant and a uniform form. The other functions are only
named in the generated code (`Marker`). The model has room for three things that no document
decodes to, so that they can be refused or shown when code is generated: a function of no
particular kind, and a node of another kind in the place of rolls or of an entry.
-/

namespace LootTables

/-- The functions that are named, not converted. -/
inductive Marker where
  | enchantRandomly
  | enchantWithLevels
  | explorationMap
  | setStewEffect
  | setDamage
deriving DecidableEq

/-- The markers in the order of their declaration. -/
def Marker.all : List Marker :=
  [.enchantRandomly, .enchantWithLevels, .explorationMap, .setStewEffect, .setDamage]

/-- The name of a marker, without its namespace. -/
def Marker.name : Marker → Text
  | .enchantRandomly => "enchant_randomly"
  | .enchantWithLevels => "enchant_with_levels"
  | .explorationMap => "exploration_map"
  | .setStewEffect => "set_stew_effect"
  | .setDamage => "set_damage"

/-- What is applied to an item. -/
inductive LootFunction where
  /-- The stack has this size. -/
  | constantCount (count : Int)
  /-- The size of the stack is uniform between the bounds. -/
  | uniformCount (min max : Number)
  | marker (m : Marker)
  /-- A function of no particular kind. -/
  | bare
deriving DecidableEq

/-- The name under which a function is shown. -/
def LootFunction.name : LootFunction → Text
  | .constantCount _ | .uniformCount _ _ => "set_count"
  | .marker m => m.name
  | .bare => []

/-- The kinds of nodes of a table. -/
inductive NodeKind where
  | constantRoll
  | uniformRoll
  | emptyEntry
  | itemEntry
  | constantCount
  | uniformCount
  | marker (m : Marker)
  | bareFunction
deriving DecidableEq

/-- The name of a kind. -/
def NodeKind.name : NodeKind → Text
  | .constantRoll => "ConstantRoll"
  | .uniformRoll => "UniformRoll"
  | .emptyEntry => "EmptyEntry"
  | .itemEntry => "ItemEntry"
  | .constantCount => "ConstantSetCount"
  | .uniformCount => "UniformSetCount"
  | .marker .enchantRandomly => "EnchantRandomlyFunction"
  | .marker .enchantWithLevels => "EnchantWithLevelsFunction"
  | .marker .explorationMap => "ExplorationMapFunction"
  | .marker .setStewEffect => "SetStewEffectFunction"
  | .marker .setDamage => "SetDamageFunction"
  | .bareFunction => "LootFunction"

/-- The kind of a function. -/
def LootFunction.kind : LootFunction → NodeKind
  | .constantCount _ => .constantCount
  | .uniformCount _ _ => .uniformCount
  | .marker m => .marker m
  | .bare => .bareFunction

/-- How often a pool is drawn from. -/
inductive Roll where
  | constant (value : Int)
  /-- Uniform between the bounds. -/
  | uniform (min max : Number)
  /-- A node that is no roll. -/
  | misplaced (kind : NodeKind)
deriving DecidableEq

/-- The kind of a roll. -/
def Roll.kind : Roll → NodeKind
  | .constant _ => .constantRoll
  | .uniform _ _ => .uniformRoll
  | .misplaced kind => kind

/-- What a draw may give. -/
inductive Entry where
  /-- Nothing. -/
  | empty (weight : Int)
  /-- An item. A weight of zero means that none was set. -/
  | item (name : Text) (weight : Int) (functions : List LootFunction)
  /-- A node that is no entry. -/
  | misplaced (kind : NodeKind)
deriving DecidableEq

/-- The kind of an entry. -/
def Entry.kind : Entry → NodeKind
  | .empty _ => .emptyEntry
  | .item _ _ _ => .itemEntry
  | .misplaced kind => kind

/-- How often to draw, and from what. -/
structure LootPool where
  rolls : Roll
  entries : List Entry
deriving DecidableEq

/-- A named list of pools. -/
structure LootTable where
  name : Text
  pools : List LootPool
deriving DecidableEq

end LootTables
