import LeafPlan.CommandLine.Arguments
import LeafPlan.CommandLine.Basic
import LeafPlan.CommandLine.Run
import LeafPlan.CommandLine.Stages
import LeafPlan.CommandLine.Table
import LeafPlan.Decimal.Nearest
import LeafPlan.Decimal.Shortest
import LeafPlan.Files.Glob
import LeafPlan.Files.Tree
import LeafPlan.Filter.Arithmetic
import LeafPlan.Filter.Calendar
import LeafPlan.Filter.Engine
import LeafPlan.Filter.Eval
import LeafPlan.Filter.Format
import LeafPlan.Filter.Function
import LeafPlan.Filter.Outputs
import LeafPlan.Filter.Parser
import LeafPlan.Filter.Part
import LeafPlan.Filter.Prelude
import LeafPlan.Filter.Run
import LeafPlan.Filter.Scope
import LeafPlan.Filter.Syntax
import LeafPlan.Filter.Token
import LeafPlan.Filter.Value
import LeafPlan.Json.Basic
import LeafPlan.Json.Document
import LeafPlan.Json.Numeral
import LeafPlan.Json.Outline
import LeafPlan.Json.Pointer
import LeafPlan.Json.Printer
import LeafPlan.Json.Reader
import LeafPlan.Log
import LeafPlan.Main
import LeafPlan.Marker
import LeafPlan.Members
import LeafPlan.Method
import LeafPlan.Path.Basic
import LeafPlan.Path.Edit
import LeafPlan.Plan.Basic
import LeafPlan.Plan.Compiler
import LeafPlan.Proofs.CommandLine.Documents
import LeafPlan.Proofs.CommandLine.Failures
import LeafPlan.Proofs.CommandLine.OneLine
import LeafPlan.Proofs.CommandLine.Reread
import LeafPlan.Proofs.CommandLine.Row
import LeafPlan.Proofs.CommandLine.Selection
import LeafPlan.Proofs.CommandLine.Sources
import LeafPlan.Proofs.CommandLine.Stages
import LeafPlan.Proofs.CommandLine.Table
import LeafPlan.Proofs.Except
import LeafPlan.Proofs.Files.Written
import LeafPlan.Proofs.Filter.Identity
import LeafPlan.Proofs.Itemwise
import LeafPlan.Proofs.Json.Distinct
import LeafPlan.Proofs.Json.Documents
import LeafPlan.Proofs.Json.Grammar
import LeafPlan.Proofs.Json.Integers
import LeafPlan.Proofs.Json.Numerals
import LeafPlan.Proofs.Json.Plain
import LeafPlan.Proofs.Json.Printed
import LeafPlan.Proofs.Json.Reading
import LeafPlan.Proofs.Json.Recoverable
import LeafPlan.Proofs.Json.Same
import LeafPlan.Proofs.Json.Stopped
import LeafPlan.Proofs.Json.Strings
import LeafPlan.Proofs.Json.Surrounded
import LeafPlan.Proofs.Json.Unambiguous
import LeafPlan.Proofs.Members
import LeafPlan.Proofs.Path.Blocked
import LeafPlan.Proofs.Path.Kept
import LeafPlan.Proofs.Path.Lens
import LeafPlan.Proofs.Path.Pointer
import LeafPlan.Proofs.Path.Writes
import LeafPlan.Proofs.Plan.Agreement
import LeafPlan.Proofs.Plan.CarriedMethod
import LeafPlan.Proofs.Plan.DepthBound
import LeafPlan.Proofs.Plan.Leaves
import LeafPlan.Proofs.Plan.LoadedDepth
import LeafPlan.Proofs.Plan.Log
import LeafPlan.Proofs.Plan.Lookups
import LeafPlan.Proofs.Plan.Methods
import LeafPlan.Proofs.Plan.PartialWrite
import LeafPlan.Proofs.Plan.Preorder
import LeafPlan.Proofs.Plan.Projection
import LeafPlan.Proofs.Plan.PropertyOrder
import LeafPlan.Proofs.Plan.Recursive
import LeafPlan.Proofs.Plan.Rendered
import LeafPlan.Proofs.Plan.Summary
import LeafPlan.Proofs.Plan.WriteBack
import LeafPlan.Proofs.Plan.WriteOrder
import LeafPlan.Proofs.Rearranged
import LeafPlan.Proofs.Schema.Depth
import LeafPlan.Proofs.Schema.Dialects
import LeafPlan.Proofs.Schema.Distinct
import LeafPlan.Proofs.Schema.Grammar
import LeafPlan.Proofs.Schema.Loaded
import LeafPlan.Proofs.Schema.Positions
import LeafPlan.Proofs.Schema.Prepare
import LeafPlan.Proofs.Schema.Refused
import LeafPlan.Proofs.Schema.Reordered
import LeafPlan.Proofs.Schema.RoundTrip
import LeafPlan.Proofs.Schema.Same
import LeafPlan.Proofs.Session
import LeafPlan.Proofs.Text.Encoding
import LeafPlan.Proofs.Text.Inspected
import LeafPlan.Proofs.Text.Lines
import LeafPlan.Regex.Basic
import LeafPlan.Regex.Parser
import LeafPlan.Schema.Authored
import LeafPlan.Schema.Loader
import LeafPlan.Schema.Prepared
import LeafPlan.Schema.Refusal
import LeafPlan.Session
import LeafPlan.Text.Inspected
import LeafPlan.Text.Lines
import LeafPlan.Text.Symbol
