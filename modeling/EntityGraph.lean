import EntityGraph.Exchange.Marker
import EntityGraph.Exchange.Schema
import EntityGraph.Exchange.Script
import EntityGraph.Json.Reader
import EntityGraph.Mutation.Json
import EntityGraph.Mutation.Transaction
import EntityGraph.Proofs.Filter.Meaning
import EntityGraph.Proofs.Language.Parsing
import EntityGraph.Proofs.Mutation.Access
import EntityGraph.Proofs.Mutation.Cascade
import EntityGraph.Proofs.Mutation.Violations
import EntityGraph.Proofs.UniqueWhere.Determination
import EntityGraph.Proofs.Sql.Rendering
import EntityGraph.Proofs.Filter.Shape
import EntityGraph.Proofs.Filter.Negation
import EntityGraph.Proofs.Mutation.OwnResult
import EntityGraph.Proofs.Mutation.TypeSafety
import EntityGraph.Proofs.Mutation.ResultPaths
import EntityGraph.Proofs.Program.Calls
import EntityGraph.Proofs.Mutation.Ordering
import EntityGraph.Proofs.Mutation.Retention
import EntityGraph.Proofs.Mutation.Reassignment
import EntityGraph.Proofs.Language.Desugaring
import EntityGraph.Proofs.Marker.Placeholder
import EntityGraph.Proofs.Mutation.Junction
import EntityGraph.Proofs.Language.Variables
import EntityGraph.Proofs.UniqueWhere.Printing
import EntityGraph.Proofs.Marker.Soundness
import EntityGraph.Proofs.Filter.Parsing
import EntityGraph.Proofs.Sql.Placeholders
import EntityGraph.Proofs.Mutation.Checking
import EntityGraph.Proofs.Mutation.Fatality
import EntityGraph.Proofs.Mutation.Belonging
import EntityGraph.Proofs.Filter.JoiningColumn
import EntityGraph.Proofs.Mutation.Narrowing
import EntityGraph.Proofs.Mutation.Walk
import EntityGraph.Proofs.Mutation.NestedWrites
import EntityGraph.Proofs.Mutation.Upserting
import EntityGraph.Proofs.Mutation.ReportedKey
import EntityGraph.Proofs.Mutation.Reconnecting
import EntityGraph.Proofs.Mutation.Siblings
import EntityGraph.Proofs.UniqueWhere.Conflicts
import EntityGraph.Proofs.Language.Covering
import EntityGraph.Proofs.Language.Spacing
import EntityGraph.Proofs.Language.Agreement
import EntityGraph.Proofs.Marker.MergeLaws
import EntityGraph.Proofs.Filter.Rereading
import EntityGraph.Proofs.Language.Numbers
import EntityGraph.Proofs.Filter.Disjunction
import EntityGraph.Proofs.Schema.Junctions
import EntityGraph.Proofs.Sql.Conjunction
import EntityGraph.Proofs.Sql.Identifiers
import EntityGraph.Proofs.Language.LongestNumber
import EntityGraph.Proofs.Language.Names
import EntityGraph.Proofs.Database.KeyColumns
