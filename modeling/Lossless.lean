import Lossless.Catalog.Basic
import Lossless.Catalog.Document
import Lossless.Catalog.Hack
import Lossless.Catalog.Load
import Lossless.Catalog.Registry
import Lossless.Catalog.Schema
import Lossless.Catalog.Variant
import Lossless.Command.Failure
import Lossless.Command.Fields
import Lossless.Command.Flag
import Lossless.Command.Grid
import Lossless.Command.Input
import Lossless.Command.Invocation
import Lossless.Command.Migrated
import Lossless.Command.Overview
import Lossless.Command.Run
import Lossless.Command.Session
import Lossless.Command.World
import Lossless.Config.Basic
import Lossless.Config.Decode
import Lossless.Config.Load
import Lossless.Config.Value
import Lossless.Decimal.General
import Lossless.Decimal.Numeral
import Lossless.Decimal.Reading
import Lossless.Decimal.Shortest
import Lossless.Edit.Distance
import Lossless.Edit.Lines
import Lossless.Edit.Script
import Lossless.Edit.Suggestion
import Lossless.Files.Basic
import Lossless.Json.Basic
import Lossless.Json.Reader
import Lossless.Json.Writer
import Lossless.Lz4.Block
import Lossless.Lz4.Checksum
import Lossless.Lz4.Frame
import Lossless.Main
import Lossless.Measure.ByteSize
import Lossless.Measure.Duration
import Lossless.Migration.Basic
import Lossless.Migration.Builtin
import Lossless.Migration.Idempotence
import Lossless.Migration.Registry
import Lossless.Migration.Runner
import Lossless.Migration.Trivia
import Lossless.Node.Access
import Lossless.Node.Basic
import Lossless.Node.Equal
import Lossless.Node.Error
import Lossless.Node.Make
import Lossless.Node.Outline
import Lossless.Node.Text
import Lossless.Node.Traverse
import Lossless.Parse.Build
import Lossless.Parse.Document
import Lossless.Parse.Malformed
import Lossless.Pass.Ancestors
import Lossless.Pass.Basic
import Lossless.Proofs.Catalog.Expressions
import Lossless.Proofs.Catalog.Hack
import Lossless.Proofs.Catalog.References
import Lossless.Proofs.Catalog.Registration
import Lossless.Proofs.Catalog.Slots
import Lossless.Proofs.Catalog.Usability
import Lossless.Proofs.Command.Checking
import Lossless.Proofs.Command.Emission
import Lossless.Proofs.Command.Limit
import Lossless.Proofs.Command.Reports
import Lossless.Proofs.Command.RoundTrip
import Lossless.Proofs.Command.Source
import Lossless.Proofs.Command.Verdicts
import Lossless.Proofs.Edit.Between
import Lossless.Proofs.Edit.Distance
import Lossless.Proofs.Edit.Lines
import Lossless.Proofs.Edit.Sides
import Lossless.Proofs.Edit.Suggestion
import Lossless.Proofs.Edit.Tidiness
import Lossless.Proofs.Ensures
import Lossless.Proofs.Files.Writing
import Lossless.Proofs.Json.Numerals
import Lossless.Proofs.Migration.Accounting
import Lossless.Proofs.Migration.Builtin
import Lossless.Proofs.Migration.Changed
import Lossless.Proofs.Migration.Commutation
import Lossless.Proofs.Migration.Conservation
import Lossless.Proofs.Migration.Idempotence
import Lossless.Proofs.Migration.LabelColons
import Lossless.Proofs.Migration.Marking
import Lossless.Proofs.Migration.ObjectDiff
import Lossless.Proofs.Migration.OptionalFields
import Lossless.Proofs.Migration.Purity
import Lossless.Proofs.Migration.Running
import Lossless.Proofs.Node.Alike
import Lossless.Proofs.Node.Built
import Lossless.Proofs.Node.Equality
import Lossless.Proofs.Node.Objects
import Lossless.Proofs.Node.Operations
import Lossless.Proofs.Node.Outline
import Lossless.Proofs.Node.Paths
import Lossless.Proofs.Node.Positions
import Lossless.Proofs.Node.PreOrder
import Lossless.Proofs.Node.Reading
import Lossless.Proofs.Node.Rewriting
import Lossless.Proofs.Node.Sound
import Lossless.Proofs.Node.Tokens
import Lossless.Proofs.Node.Twins
import Lossless.Proofs.Parse.Acceptance
import Lossless.Proofs.Parse.Coverage
import Lossless.Proofs.Parse.Describable
import Lossless.Proofs.Parse.Deviation
import Lossless.Proofs.Parse.Encoding
import Lossless.Proofs.Parse.Failure
import Lossless.Proofs.Parse.Grammar
import Lossless.Proofs.Parse.Locality
import Lossless.Proofs.Parse.Messages
import Lossless.Proofs.Pass.Ancestors
import Lossless.Proofs.Pass.Calls
import Lossless.Proofs.Pass.Decomposition
import Lossless.Proofs.Pass.Eager
import Lossless.Proofs.Pass.Paths
import Lossless.Proofs.Pass.Plain
import Lossless.Proofs.Pass.Preservation
import Lossless.Proofs.Pass.Replay
import Lossless.Proofs.Pass.Sharing
import Lossless.Proofs.Pass.Substitution
import Lossless.Proofs.Pass.Trace
import Lossless.Proofs.Pass.Twins
import Lossless.Proofs.Schema.Acceptance
import Lossless.Proofs.Schema.Agreement
import Lossless.Proofs.Schema.Kinds
import Lossless.Proofs.Schema.Resolution
import Lossless.Proofs.Telemetry.Cutting
import Lossless.Proofs.Telemetry.Redaction
import Lossless.Proofs.Telemetry.Redactor
import Lossless.Proofs.Text.Case
import Lossless.Proofs.Text.Controls
import Lossless.Proofs.Text.Lines
import Lossless.Proofs.Text.Quoted
import Lossless.Proofs.Text.Rune
import Lossless.Proofs.Text.Whole
import Lossless.Schema.Basic
import Lossless.Schema.Reference
import Lossless.Telemetry.Attribute
import Lossless.Telemetry.Exposition
import Lossless.Telemetry.Log
import Lossless.Telemetry.Metric
import Lossless.Telemetry.Redaction
import Lossless.Telemetry.Resource
import Lossless.Telemetry.Sampler
import Lossless.Telemetry.Span
import Lossless.Text.Base64
import Lossless.Text.Basic
import Lossless.Text.Blank
import Lossless.Text.Case
import Lossless.Text.Escape
import Lossless.Text.Lines
import Lossless.Text.Path
import Lossless.Text.Printable
import Lossless.Text.Quoted
import Lossless.Text.Rune
import Lossless.Text.Template
import Lossless.Text.Terminal
import Lossless.Text.Width
import Lossless.Yaml.Atom
import Lossless.Yaml.Cursor
import Lossless.Yaml.Document
import Lossless.Yaml.Encoding
import Lossless.Yaml.Expansion
import Lossless.Yaml.Node
import Lossless.Yaml.Property
import Lossless.Yaml.Scalar
import Lossless.Yaml.Timestamp
import Lossless.Yaml.Token
import Lossless.Yaml.TokenStream
import Lossless.Yaml.Value
import Lossless.Proofs.Node.Narrowing
import Lossless.Proofs.Node.Traversal
