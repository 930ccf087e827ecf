import EntityGraph.Audit
import EntityGraph.Audit.Concern
import EntityGraph.Audit.Finding
import EntityGraph.Calendar
import EntityGraph.Configuration
import EntityGraph.Document
import EntityGraph.Failure
import EntityGraph.Handlers
import EntityGraph.Handlers.Formatted
import EntityGraph.Handlers.Layout
import EntityGraph.Handlers.Path
import EntityGraph.Handlers.Source
import EntityGraph.Input.Coercion
import EntityGraph.Input.Definitions
import EntityGraph.Input.Draft
import EntityGraph.Input.Record
import EntityGraph.Input.Text
import EntityGraph.Json
import EntityGraph.Kind
import EntityGraph.Log
import EntityGraph.Manifest
import EntityGraph.Markup.Mark
import EntityGraph.Markup.Meaning
import EntityGraph.Markup.Merge
import EntityGraph.Markup.Node
import EntityGraph.Markup.Number
import EntityGraph.Markup.Scalar
import EntityGraph.Markup.Tag
import EntityGraph.Markup.Timestamp
import EntityGraph.Markup.Token
import EntityGraph.Markup.Token.Lexer
import EntityGraph.Markup.Token.Property
import EntityGraph.Markup.Token.Scalar
import EntityGraph.Model
import EntityGraph.Naming
import EntityGraph.Naming.Case
import EntityGraph.Number.Binary64
import EntityGraph.Number.Decimal
import EntityGraph.Pipeline
import EntityGraph.Proofs.Agreement
import EntityGraph.Proofs.Arguments
import EntityGraph.Proofs.Audit
import EntityGraph.Proofs.Casing
import EntityGraph.Proofs.Clean
import EntityGraph.Proofs.Compilation
import EntityGraph.Proofs.Consistency
import EntityGraph.Proofs.Distinct
import EntityGraph.Proofs.Executable.Grammar
import EntityGraph.Proofs.Executable.Token
import EntityGraph.Proofs.Executable.Unambiguous
import EntityGraph.Proofs.Executable.Written
import EntityGraph.Proofs.Exposure
import EntityGraph.Proofs.Extraction
import EntityGraph.Proofs.Failing
import EntityGraph.Proofs.Handlers.Attributes
import EntityGraph.Proofs.Handlers.Bindable
import EntityGraph.Proofs.Handlers.Closed
import EntityGraph.Proofs.Handlers.Imports
import EntityGraph.Proofs.Handlers.Layout
import EntityGraph.Proofs.Handlers.Literal
import EntityGraph.Proofs.Handlers.Path
import EntityGraph.Proofs.Handlers.Shared
import EntityGraph.Proofs.Input.Batch
import EntityGraph.Proofs.Input.Definitions
import EntityGraph.Proofs.Input.Faults
import EntityGraph.Proofs.Input.Index
import EntityGraph.Proofs.Input.Normal
import EntityGraph.Proofs.Input.Record
import EntityGraph.Proofs.Input.Rereading
import EntityGraph.Proofs.Json.Agreement
import EntityGraph.Proofs.Json.Graphs
import EntityGraph.Proofs.Json.Nodes
import EntityGraph.Proofs.Json.Numbers
import EntityGraph.Proofs.Json.Strings
import EntityGraph.Proofs.Json.Syntax
import EntityGraph.Proofs.Json.Tokens
import EntityGraph.Proofs.Json.Values
import EntityGraph.Proofs.Lettering
import EntityGraph.Proofs.Literal.Dropping
import EntityGraph.Proofs.Literal.Emission
import EntityGraph.Proofs.Literal.Parameters
import EntityGraph.Proofs.Literal.Reading
import EntityGraph.Proofs.Literal.RoundTrip
import EntityGraph.Proofs.Literal.Written
import EntityGraph.Proofs.Loading
import EntityGraph.Proofs.Lockstep
import EntityGraph.Proofs.Losses
import EntityGraph.Proofs.Markup.Blanks
import EntityGraph.Proofs.Markup.Key
import EntityGraph.Proofs.Markup.Mark
import EntityGraph.Proofs.Markup.Meaning
import EntityGraph.Proofs.Markup.Ordered
import EntityGraph.Proofs.Markup.Plain
import EntityGraph.Proofs.Markup.Standing
import EntityGraph.Proofs.Markup.Stream
import EntityGraph.Proofs.Markup.Token
import EntityGraph.Proofs.Metrics
import EntityGraph.Proofs.Naming
import EntityGraph.Proofs.Origins
import EntityGraph.Proofs.Outcome
import EntityGraph.Proofs.Outcomes
import EntityGraph.Proofs.Pattern
import EntityGraph.Proofs.Pipeline
import EntityGraph.Proofs.Points
import EntityGraph.Proofs.Reporting
import EntityGraph.Proofs.RootWriters
import EntityGraph.Proofs.Run
import EntityGraph.Proofs.Scanning
import EntityGraph.Proofs.Schema.Claimed
import EntityGraph.Proofs.Schema.Collection
import EntityGraph.Proofs.Schema.Contents
import EntityGraph.Proofs.Schema.Fieldless
import EntityGraph.Proofs.Schema.Graph
import EntityGraph.Proofs.Schema.History
import EntityGraph.Proofs.Schema.InputFields
import EntityGraph.Proofs.Schema.Outdated
import EntityGraph.Proofs.Schema.Redefinition
import EntityGraph.Proofs.Schema.References
import EntityGraph.Proofs.Schema.Registration
import EntityGraph.Proofs.Schema.RootField
import EntityGraph.Proofs.Schema.WellFormed
import EntityGraph.Proofs.Segments
import EntityGraph.Proofs.Session
import EntityGraph.Proofs.Stores
import EntityGraph.Proofs.Substitution
import EntityGraph.Proofs.Table
import EntityGraph.Proofs.Underscores
import EntityGraph.Proofs.Words
import EntityGraph.Report
import EntityGraph.Schema
import EntityGraph.Schema.Graph
import EntityGraph.Schema.Name
import EntityGraph.Schema.Printer
import EntityGraph.Schema.Registry
import EntityGraph.Schema.RootField
import EntityGraph.Schema.Shape
import EntityGraph.Schema.TypeExpr
import EntityGraph.Session
import EntityGraph.Table
import EntityGraph.Text.Class
import EntityGraph.Text.Decoding
import EntityGraph.Text.Lowercase
import EntityGraph.Text.Point
import EntityGraph.Text.Printable
import EntityGraph.Text.Uppercase
import EntityGraph.Text.Width
import EntityGraph.Validator.Signature
import EntityGraph.Value
import EntityGraph.Value.Literal
import EntityGraph.Value.SetOrder
import EntityGraph.Violation
