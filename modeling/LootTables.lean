import LootTables.Main
import LootTables.Proofs.Table.Defects
import LootTables.Proofs.Table.WellFormed
import LootTables.Proofs.Table.Unambiguous
import LootTables.Proofs.Table.Renderable
import LootTables.Proofs.Table.ReadFields
import LootTables.Proofs.Table.DefectPlace
import LootTables.Proofs.Table.Splitting
import LootTables.Proofs.Table.Ranges
import LootTables.Proofs.Table.Layout
import LootTables.Proofs.Table.Messages
import LootTables.Proofs.Number.Reread
import LootTables.Proofs.Source.Names
import LootTables.Proofs.Source.Respelled
import LootTables.Proofs.Output.AllOrNothing
import LootTables.Proofs.Output.Nested
import LootTables.Proofs.Output.Rerun
import LootTables.Proofs.Output.Interrupted
import LootTables.Proofs.Command.Reported
import LootTables.Proofs.Command.NoOverwrite
import LootTables.Proofs.Settings.Documented
import LootTables.Proofs.Command.Comment
import LootTables.Proofs.Command.Repeated
