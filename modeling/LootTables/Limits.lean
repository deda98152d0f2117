/-!
# Limits of a run

Reading JSON goes one call deeper with every container, and a search for sources with every
directory. Only so many calls may be open at once, and how many of them are left depends on where a
run is called from. `Limits` counts what a run has left of them, in containers and directories; its
defaults are those of a script that calls the run directly.
-/

namespace LootTables

/-- What a run has room for. -/
structure Limits where
  /-- How many containers of a source may be open at once. -/
  documents : Nat := 990
  /-- How many containers of a settings file may be open at once. -/
  settings : Nat := 994
  /-- How many directories may be open at once in a search. -/
  directories : Nat := 988
deriving DecidableEq

end LootTables
