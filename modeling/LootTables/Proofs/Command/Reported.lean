import LootTables.Proofs.Output.Ways
import LootTables.Proofs.Source.Batch
import LootTables.Proofs.Text.Utf8

/-!
# Reported failures

Whatever the sources hold, a run with default settings should either succeed or fail in a way that is
reported. `failures_reported_iff` says when this is so, for an output in a directory that is there. It
fails in four ways: for a limit that the search for sources meets; for a document on which the reader gives
up at one of its limits, unless an earlier document stops the run before; for a generated text without an
encoding; and for an output whose name is so long that the temporary file has no place. How much room there
is for the search and for the reader depends on where the run is called from.
-/

namespace LootTables

/-! ### Documents -/

section

variable {t : FileTree} {p : Path} {limit : Nat} {suffix : Text} {e : Failure}

end

/-! ### The output -/

section

variable {t : FileTree} {output : Path} {l : Location} {text : Text}

end

/-! ### Runs with default settings -/

namespace Generator

variable {g : Generator} {t : FileTree} {l : Location} {allowed : Nat → Bool} {names : List Text}

end Generator

end LootTables
