import CallNames.Largest
import CallNames.Number.Binary64
import CallNames.Number.Shortest
import CallNames.Json.Basic
import CallNames.Json.Numeral
import CallNames.Json.Quoted
import CallNames.Json.Reader
import CallNames.Json.Nesting
import CallNames.Json.Writer
import CallNames.Node.Kind
import CallNames.Node.Form
import CallNames.Node.Ref
import CallNames.Document.Path
import CallNames.Event
import CallNames.Traced
import CallNames.Arena.Basic
import CallNames.Arena.Walk
import CallNames.Arena.Listing
import CallNames.Document.Defect
import CallNames.Document.Load
import CallNames.Name.Identifier
import CallNames.Name.Qualified
import CallNames.Name.Enclosing
import CallNames.Name.Operand
import CallNames.Report.Basic
import CallNames.Report.Analysis
import CallNames.Report.Summary
import CallNames.Report.Colour
import CallNames.Report.Text
import CallNames.Cli.Options
import CallNames.Cli.Folder
import CallNames.Cli.Run
import CallNames.Log.Format
import CallNames.Log.Alphanumeric
import CallNames.Log.Directive
import CallNames.Log.Filter
import CallNames.Main
import CallNames.Proofs.Document.Schema
import CallNames.Proofs.Document.Demands
import CallNames.Proofs.Document.Run
import CallNames.Proofs.Arena.Add
import CallNames.Proofs.Arena.Forest
import CallNames.Proofs.Document.Links
import CallNames.Proofs.Document.Acceptance
import CallNames.Proofs.Document.Tree
import CallNames.Proofs.Document.Faithful
import CallNames.Proofs.Document.Place
import CallNames.Proofs.Document.Refusal
import CallNames.Proofs.Arena.Ancestry
import CallNames.Proofs.Document.Walks
import CallNames.Proofs.Arena.Subtree
import CallNames.Proofs.Json.Brackets
import CallNames.Proofs.Json.Reading
import CallNames.Proofs.Json.LockStep
import CallNames.Proofs.Document.Text
import CallNames.Proofs.Document.Denotation
import CallNames.Proofs.Name.Spelling
import CallNames.Proofs.Name.Surroundings
import CallNames.Proofs.Report.Calls
import CallNames.Proofs.Document.Origin
import CallNames.Proofs.Report.Completeness
import CallNames.Proofs.Report.Locality
import CallNames.Proofs.Report.Constructions
import CallNames.Proofs.Document.Interchange
import CallNames.Proofs.Document.Noise
import CallNames.Proofs.Arena.Descent
import CallNames.Proofs.Name.FromAbove
import CallNames.Proofs.Json.Grammar
import CallNames.Proofs.Json.Numbers
import CallNames.Proofs.Json.Strings
import CallNames.Proofs.Json.Readable
import CallNames.Proofs.Json.Recognition
import CallNames.Proofs.Json.Indented
import CallNames.Proofs.Cli.Run
import CallNames.Proofs.Cli.Lossless
import CallNames.Proofs.Document.Places
import CallNames.Proofs.Document.Limits
import CallNames.Proofs.Name.Chains
import CallNames.Proofs.Name.Agreement
import CallNames.Proofs.Name.Operands
import CallNames.Proofs.Arena.Build
import CallNames.Proofs.Arena.Ascent
import CallNames.Proofs.Arena.Traversal
import CallNames.Proofs.Report.ByteOrder
import CallNames.Proofs.Report.Histogram
import CallNames.Proofs.Document.Trail
import CallNames.Proofs.Document.Context
import CallNames.Proofs.Name.Fallbacks
import CallNames.Proofs.Report.Erasure
import CallNames.Proofs.Report.Columns
