import ImageAssembly.Architecture
import ImageAssembly.Archive.Header
import ImageAssembly.Archive.Reader
import ImageAssembly.Archive.Writer
import ImageAssembly.Build.Assembly
import ImageAssembly.CommandLine.Arguments
import ImageAssembly.CommandLine.ByteCount
import ImageAssembly.CommandLine.Commands
import ImageAssembly.ConfigFile.Basic
import ImageAssembly.ConfigFile.Container
import ImageAssembly.ConfigFile.History
import ImageAssembly.ConfigFile.RootFs
import ImageAssembly.Configuration.Basic
import ImageAssembly.Configuration.File
import ImageAssembly.Configuration.Json
import ImageAssembly.Configuration.Merge
import ImageAssembly.Configuration.Yaml
import ImageAssembly.Decimal.Binary64
import ImageAssembly.Decimal.Numeral
import ImageAssembly.Decimal.Shortest
import ImageAssembly.Dictionary
import ImageAssembly.Digest
import ImageAssembly.Error
import ImageAssembly.ErrorKind
import ImageAssembly.Export.SingleLayer
import ImageAssembly.Export.Sink
import ImageAssembly.Export.Tarball
import ImageAssembly.Feed
import ImageAssembly.Files
import ImageAssembly.Gzip.Bits
import ImageAssembly.Gzip.Crc32
import ImageAssembly.Gzip.Huffman
import ImageAssembly.Gzip.Inflate
import ImageAssembly.Gzip.Member
import ImageAssembly.Image.Basic
import ImageAssembly.Image.Layout
import ImageAssembly.Index
import ImageAssembly.Json.Decode
import ImageAssembly.Json.Encode
import ImageAssembly.Json.Number
import ImageAssembly.Json.Token
import ImageAssembly.Json.Tree
import ImageAssembly.Json.Value
import ImageAssembly.Layer.Basic
import ImageAssembly.Main
import ImageAssembly.Manifest
import ImageAssembly.MediaType
import ImageAssembly.Proofs.Archive.Entries
import ImageAssembly.Proofs.Archive.Header
import ImageAssembly.Proofs.Build.Environment
import ImageAssembly.Proofs.Build.Interchange
import ImageAssembly.Proofs.Build.Outcome
import ImageAssembly.Proofs.Build.Overriding
import ImageAssembly.Proofs.Build.Provenance
import ImageAssembly.Proofs.Build.Reordering
import ImageAssembly.Proofs.Build.Requirements
import ImageAssembly.Proofs.Build.Stacking
import ImageAssembly.Proofs.Build.Steps
import ImageAssembly.Proofs.Build.Timestamps
import ImageAssembly.Proofs.CommandLine.Arguments
import ImageAssembly.Proofs.CommandLine.Overriding
import ImageAssembly.Proofs.CommandLine.Reordering
import ImageAssembly.Proofs.ConfigFile.Basic
import ImageAssembly.Proofs.ConfigFile.Container
import ImageAssembly.Proofs.ConfigFile.History
import ImageAssembly.Proofs.ConfigFile.RoundTrip
import ImageAssembly.Proofs.ConfigFile.Runtime
import ImageAssembly.Proofs.ConfigFile.Timestamps
import ImageAssembly.Proofs.Configuration.InPlace
import ImageAssembly.Proofs.Configuration.Merging
import ImageAssembly.Proofs.Decimal.Rounding
import ImageAssembly.Proofs.Decimal.Shortest
import ImageAssembly.Proofs.Dictionary
import ImageAssembly.Proofs.Export.Contents
import ImageAssembly.Proofs.Export.Declared
import ImageAssembly.Proofs.Export.Failing
import ImageAssembly.Proofs.Export.Interchange
import ImageAssembly.Proofs.Export.Listing
import ImageAssembly.Proofs.Export.Loading
import ImageAssembly.Proofs.Export.Rewriting
import ImageAssembly.Proofs.Export.SelfContained
import ImageAssembly.Proofs.Export.SingleLayer
import ImageAssembly.Proofs.Export.Writing
import ImageAssembly.Proofs.Files.Keeping
import ImageAssembly.Proofs.Files.Overwriting
import ImageAssembly.Proofs.Gzip.Bits
import ImageAssembly.Proofs.Gzip.Blocks
import ImageAssembly.Proofs.Gzip.Coded
import ImageAssembly.Proofs.Gzip.Header
import ImageAssembly.Proofs.Gzip.Members
import ImageAssembly.Proofs.Gzip.Stored
import ImageAssembly.Proofs.Gzip.Tables
import ImageAssembly.Proofs.Gzip.Words
import ImageAssembly.Proofs.Hash.Pieces
import ImageAssembly.Proofs.Image.Appending
import ImageAssembly.Proofs.Image.Consistency
import ImageAssembly.Proofs.Image.Documents
import ImageAssembly.Proofs.Image.Parts
import ImageAssembly.Proofs.InStep
import ImageAssembly.Proofs.Index
import ImageAssembly.Proofs.Json.Double
import ImageAssembly.Proofs.Json.Keep
import ImageAssembly.Proofs.Json.Lexing
import ImageAssembly.Proofs.Json.Numeral
import ImageAssembly.Proofs.Json.Records
import ImageAssembly.Proofs.Json.Rereading
import ImageAssembly.Proofs.Json.Size
import ImageAssembly.Proofs.Json.Strings
import ImageAssembly.Proofs.Json.Structure
import ImageAssembly.Proofs.Layer.Asking
import ImageAssembly.Proofs.Layer.FirstMember
import ImageAssembly.Proofs.Layer.Interchange
import ImageAssembly.Proofs.Layer.Keeping
import ImageAssembly.Proofs.Layer.Learning
import ImageAssembly.Proofs.Layer.Lifetime
import ImageAssembly.Proofs.Layer.Making
import ImageAssembly.Proofs.Layer.Storage
import ImageAssembly.Proofs.Layout.Honesty
import ImageAssembly.Proofs.Layout.Loading
import ImageAssembly.Proofs.Layout.Paths
import ImageAssembly.Proofs.Manifest
import ImageAssembly.Proofs.Outcome
import ImageAssembly.Proofs.Tag.Expressions
import ImageAssembly.Proofs.Tag.Grammar
import ImageAssembly.Proofs.Tag.Normal
import ImageAssembly.Proofs.Text.Bytes
import ImageAssembly.Proofs.Text.Digits
import ImageAssembly.Proofs.Text.Grammar
import ImageAssembly.Proofs.Text.Integer
import ImageAssembly.Proofs.Time.Calendar
import ImageAssembly.Proofs.Time.Counting
import ImageAssembly.Proofs.Time.Reading
import ImageAssembly.Proofs.Time.Rereading
import ImageAssembly.Proofs.Time.SourceDate
import ImageAssembly.Provenance
import ImageAssembly.Sha256
import ImageAssembly.ShellWords
import ImageAssembly.Tag
import ImageAssembly.Text.Blank
import ImageAssembly.Text.Cut
import ImageAssembly.Text.Hexadecimal
import ImageAssembly.Text.Integer
import ImageAssembly.Text.Printable
import ImageAssembly.Text.Quoted
import ImageAssembly.Time.Calendar
import ImageAssembly.Time.Instant
import ImageAssembly.Time.Rfc3339
import ImageAssembly.Time.SourceDate
import ImageAssembly.Workspace
import ImageAssembly.Yaml.Cursor
import ImageAssembly.Yaml.Decode
import ImageAssembly.Yaml.Kind
import ImageAssembly.Yaml.Node
import ImageAssembly.Yaml.Scalar
import ImageAssembly.Yaml.Token
import ImageAssembly.Proofs.Architecture
import ImageAssembly.Proofs.Digest
import ImageAssembly.Proofs.Gzip.Checksum
import ImageAssembly.Proofs.Gzip.Damage
import ImageAssembly.Proofs.Layer.Compressed
import ImageAssembly.Proofs.Layer.Damaged
