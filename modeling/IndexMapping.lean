import IndexMapping.Main
import IndexMapping.Settings.Toml
import IndexMapping.Proofs.Fields
import IndexMapping.Proofs.Outcome
import IndexMapping.Proofs.Schema.Properties
import IndexMapping.Proofs.Schema.Expand
import IndexMapping.Proofs.Schema.Drain
import IndexMapping.Proofs.Schema.Session
import IndexMapping.Proofs.Json.Numbers
import IndexMapping.Proofs.Json.Reading
import IndexMapping.Proofs.Schema.Rendering
import IndexMapping.Proofs.Schema.Emission
import IndexMapping.Proofs.Schema.Recursion
import IndexMapping.Proofs.Json.Decoding
import IndexMapping.Proofs.Schema.Decoding
import IndexMapping.Proofs.Flat.Leaves
import IndexMapping.Proofs.Flat.Comparison
import IndexMapping.Proofs.Flat.Paths
import IndexMapping.Proofs.Flat.MemberOrder
import IndexMapping.Proofs.Text.ByteOrder
import IndexMapping.Proofs.Flat.Difference
import IndexMapping.Proofs.Flat.Contents
import IndexMapping.Proofs.Flat.Mappings
import IndexMapping.Proofs.Json.Names
import IndexMapping.Proofs.Descriptor.TypeSet
import IndexMapping.Proofs.Package.Assemble
import IndexMapping.Proofs.Descriptor.Insertions
import IndexMapping.Proofs.Descriptor.References
import IndexMapping.Proofs.Schema.Extension
import IndexMapping.Proofs.Schema.Part
import IndexMapping.Proofs.Files.Path
import IndexMapping.Proofs.Files.Nodes
import IndexMapping.Proofs.Files.Walk
import IndexMapping.Proofs.Package.Loading
import IndexMapping.Proofs.Package.Generating
import IndexMapping.Proofs.Package.Siblings
import IndexMapping.Proofs.Schema.Irrelevance
import IndexMapping.Proofs.Json.Budget
import IndexMapping.Proofs.Descriptor.Codec
import IndexMapping.Proofs.Text.LineDiff
import IndexMapping.Proofs.Decimal.Shortest
import IndexMapping.Proofs.Decimal.Layout
import IndexMapping.Proofs.Decimal.Rounding
import IndexMapping.Proofs.Json.Regular
import IndexMapping.Proofs.Json.Compact
import IndexMapping.Proofs.Json.Quotes
import IndexMapping.Proofs.Flat.Rendering
import IndexMapping.Proofs.Files.Writing
import IndexMapping.Proofs.Cli.Deliveries
import IndexMapping.Proofs.Settings.Defaults
import IndexMapping.Proofs.Flat.Keys
import IndexMapping.Proofs.Flat.Expansion
import IndexMapping.Proofs.Text.Utf8
import IndexMapping.Proofs.Json.Spacing
import IndexMapping.Proofs.Json.Indented
import IndexMapping.Proofs.Package.OutputPath
import IndexMapping.Proofs.Text.Case
import IndexMapping.Proofs.Identifier.Runs
import IndexMapping.Proofs.Identifier.Underscores
import IndexMapping.Proofs.Identifier.Words
import IndexMapping.Proofs.Package.TypeCount
import IndexMapping.Proofs.Identifier.LowerCase
import IndexMapping.Proofs.Toml.Strings
import IndexMapping.Proofs.Toml.Lines
import IndexMapping.Proofs.Settings.KeyPath
import IndexMapping.Proofs.Settings.Layers
import IndexMapping.Proofs.Settings.Saved
import IndexMapping.Proofs.Settings.Sources
import IndexMapping.Proofs.Settings.Spelling
import IndexMapping.Proofs.Settings.Variables
import IndexMapping.Proofs.Flat.Summary
import IndexMapping.Proofs.Flat.Sequences
import IndexMapping.Proofs.Identifier.Pieces
import IndexMapping.Proofs.Json.Skipping
import IndexMapping.Proofs.Files.Growth
import IndexMapping.Proofs.Files.Later
import IndexMapping.Proofs.Package.Blank
import IndexMapping.Proofs.Package.Writing
import IndexMapping.Proofs.Package.Repeating
