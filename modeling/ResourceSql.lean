import ResourceSql.Main
import ResourceSql.Sql.Node
import ResourceSql.Proofs.TextMatching
import ResourceSql.Proofs.Evaluation
import ResourceSql.Proofs.Flattening
import ResourceSql.Proofs.Graph
import ResourceSql.Proofs.Scope
import ResourceSql.Proofs.JoinedRows
import ResourceSql.Proofs.Steps
import ResourceSql.Proofs.Columns
import ResourceSql.Proofs.Counting
import ResourceSql.Proofs.Readability
import ResourceSql.Proofs.Numbering
import ResourceSql.Proofs.Commands
import ResourceSql.Proofs.Offers
import ResourceSql.Proofs.Reads
import ResourceSql.Proofs.Literals
import ResourceSql.Proofs.Texts
import ResourceSql.Proofs.Writes
import ResourceSql.Proofs.Replacement
import ResourceSql.Proofs.Frame
import ResourceSql.Proofs.Consistency
import ResourceSql.Proofs.Deletion
import ResourceSql.Proofs.Composition
import ResourceSql.Proofs.Updates
import ResourceSql.Proofs.Assignments
import ResourceSql.Proofs.Blame
import ResourceSql.Proofs.Faults
import ResourceSql.Proofs.MutationFaults
import ResourceSql.Proofs.WellFormed
import ResourceSql.Proofs.Repetition
import ResourceSql.Proofs.Alternatives
import ResourceSql.Proofs.PageColumns
import ResourceSql.Proofs.Orderings
import ResourceSql.Proofs.MutationTypes
import ResourceSql.Proofs.Identification
import ResourceSql.Proofs.Walked
import ResourceSql.Proofs.Sessions
import ResourceSql.Proofs.Dialects
import ResourceSql.Proofs.Files
import ResourceSql.Proofs.Retracing
import ResourceSql.Proofs.Integers
import ResourceSql.Proofs.Displays
import ResourceSql.Proofs.Placeholders
import ResourceSql.Proofs.Forgetting
