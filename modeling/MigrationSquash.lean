import MigrationSquash.Main
import MigrationSquash.Proofs.Region.Ranges
import MigrationSquash.Proofs.Run.Converted
import MigrationSquash.Proofs.Scan.Bytes
import MigrationSquash.Proofs.Script.Inert
import MigrationSquash.Proofs.Run.Adoption
import MigrationSquash.Proofs.Files.Lasting
import MigrationSquash.Proofs.Files.Renaming
import MigrationSquash.Proofs.Run.Removal
import MigrationSquash.Proofs.Run.Course
import MigrationSquash.Proofs.Run.Primary
import MigrationSquash.Proofs.Run.Undivided
import MigrationSquash.Proofs.Run.Frame
import MigrationSquash.Proofs.Run.Interrupted
import MigrationSquash.Proofs.Script.Sanitized
import MigrationSquash.Proofs.Hazard.Written
import MigrationSquash.Proofs.Hazard.Replay
import MigrationSquash.Proofs.Run.Crossing
import MigrationSquash.Proofs.Catalog.Segment
import MigrationSquash.Proofs.Script.Literal
import MigrationSquash.Proofs.Arguments.Agreement
import MigrationSquash.Proofs.Merge.Stages
import MigrationSquash.Proofs.Region.Opening
import MigrationSquash.Proofs.Region.Declared
import MigrationSquash.Proofs.Region.PutGet
import MigrationSquash.Proofs.Region.PutPut
import MigrationSquash.Proofs.Region.Commuting
import MigrationSquash.Proofs.Merge.Sealed
import MigrationSquash.Proofs.Import.Collected
import MigrationSquash.Proofs.Import.Placing
import MigrationSquash.Proofs.Arguments.Positions
import MigrationSquash.Proofs.Arguments.Expressions
import MigrationSquash.Proofs.Script.OtherTables
import MigrationSquash.Proofs.Text.LineEnds
import MigrationSquash.Proofs.Designer.Marks
import MigrationSquash.Proofs.Designer.Found
import MigrationSquash.Proofs.Designer.Divided
import MigrationSquash.Proofs.Designer.Probe
import MigrationSquash.Proofs.Designer.Retarget
import MigrationSquash.Proofs.Scan.Dedent
import MigrationSquash.Proofs.Merge.Drift
import MigrationSquash.Proofs.Script.Batches
import MigrationSquash.Proofs.Script.SpanParts
import MigrationSquash.Proofs.Script.ByteCuts
import MigrationSquash.Proofs.Script.ExactCuts
