import Schemata.Arguments
import Schemata.Builtin
import Schemata.Command
import Schemata.Config
import Schemata.Diagnostic
import Schemata.Disk
import Schemata.Document
import Schemata.Fields
import Schemata.Json.Basic
import Schemata.Json.Display
import Schemata.Json.Equality
import Schemata.Json.Grammar
import Schemata.Json.Number
import Schemata.Json.Reader
import Schemata.Json.Writer
import Schemata.Machine
import Schemata.Main
import Schemata.Numeric.Binary64
import Schemata.Numeric.Decimal
import Schemata.Numeric.Digits
import Schemata.Numeric.Layout
import Schemata.Path
import Schemata.Proofs.Collisions
import Schemata.Proofs.Combination
import Schemata.Proofs.Combinators
import Schemata.Proofs.Contexts
import Schemata.Proofs.Defaults
import Schemata.Proofs.Delivery
import Schemata.Proofs.Denotation
import Schemata.Proofs.Descriptions
import Schemata.Proofs.Displaced
import Schemata.Proofs.Emission
import Schemata.Proofs.EmittedNumbers
import Schemata.Proofs.Entries
import Schemata.Proofs.Faults
import Schemata.Proofs.FirstOccurrences
import Schemata.Proofs.FrontEnds
import Schemata.Proofs.Growth
import Schemata.Proofs.Intersections
import Schemata.Proofs.Invariants
import Schemata.Proofs.Leftovers
import Schemata.Proofs.Levels
import Schemata.Proofs.Limits
import Schemata.Proofs.Lists
import Schemata.Proofs.LiteralUnions
import Schemata.Proofs.Logging
import Schemata.Proofs.MaximalWords
import Schemata.Proofs.Meaning
import Schemata.Proofs.MemberOrder
import Schemata.Proofs.Names
import Schemata.Proofs.NullSpelling
import Schemata.Proofs.Nullability
import Schemata.Proofs.Parameters
import Schemata.Proofs.Parts
import Schemata.Proofs.Places
import Schemata.Proofs.Pools
import Schemata.Proofs.Prefixes
import Schemata.Proofs.ReadNumbers
import Schemata.Proofs.ReadText
import Schemata.Proofs.Readback
import Schemata.Proofs.References
import Schemata.Proofs.Relocation
import Schemata.Proofs.RepeatedValues
import Schemata.Proofs.Repetitions
import Schemata.Proofs.Resolution
import Schemata.Proofs.Rewriting
import Schemata.Proofs.RewrittenRuns
import Schemata.Proofs.RootedNames
import Schemata.Proofs.Safety
import Schemata.Proofs.Sameness
import Schemata.Proofs.Shapes
import Schemata.Proofs.Spellings
import Schemata.Proofs.Strictness
import Schemata.Proofs.Trees
import Schemata.Proofs.Unions
import Schemata.Proofs.Unquoted
import Schemata.Proofs.WellShaped
import Schemata.Proofs.Words
import Schemata.Proofs.WrittenNumbers
import Schemata.Proofs.WrittenStrings
import Schemata.Proofs.WrittenValues
import Schemata.Report
import Schemata.Resolve
import Schemata.Resolve.Basic
import Schemata.Schema.Basic
import Schemata.Schema.Combine
import Schemata.Schema.Equality
import Schemata.Schema.Keywords
import Schemata.Session
import Schemata.Text
import Schemata.Text.Blank
import Schemata.Text.Printable
import Schemata.Text.Quoted
import Schemata.Text.Ranges
import Schemata.Text.Terminal
import Schemata.TypeExpr.Basic
import Schemata.TypeExpr.Decode
import Schemata.TypeExpr.Display
import Schemata.TypeExpr.Encode
