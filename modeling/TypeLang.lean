import TypeLang.Checksum.Adler32
import TypeLang.Checksum.Crc32
import TypeLang.Command.Options
import TypeLang.Command.Run
import TypeLang.Compression.Bits
import TypeLang.Compression.Code
import TypeLang.Compression.Deflate
import TypeLang.Compression.Expansion
import TypeLang.Compression.Gzip
import TypeLang.Compression.Inflate
import TypeLang.Compression.Zlib
import TypeLang.Content.Peer
import TypeLang.Content.Thumbnail
import TypeLang.Content.Waveform
import TypeLang.Declaration.Arg
import TypeLang.Declaration.Combinator
import TypeLang.Declaration.Fault
import TypeLang.Declaration.File
import TypeLang.Declaration.Name
import TypeLang.Declaration.TypeTerm
import TypeLang.Decoder.Basic
import TypeLang.Decoder.Direct
import TypeLang.Decoder.Run
import TypeLang.Decoder.Session
import TypeLang.Json.Basic
import TypeLang.Json.Decimal
import TypeLang.Json.Fault
import TypeLang.Json.Keyed
import TypeLang.Json.Read
import TypeLang.Json.Text
import TypeLang.Main
import TypeLang.Number.Double
import TypeLang.Number.Shortest
import TypeLang.Plan.Basic
import TypeLang.Plan.Body
import TypeLang.Plan.Compile
import TypeLang.Proofs.Compression.Bounds
import TypeLang.Proofs.Compression.Contents
import TypeLang.Proofs.Content.Waveform
import TypeLang.Proofs.Declaration.Endings
import TypeLang.Proofs.Declaration.Identifiers
import TypeLang.Proofs.Declaration.Layout
import TypeLang.Proofs.Declaration.Numbering
import TypeLang.Proofs.Declaration.Pieces
import TypeLang.Proofs.Declaration.Printing
import TypeLang.Proofs.Declaration.Spelling
import TypeLang.Proofs.Declaration.TermText
import TypeLang.Proofs.Declaration.Variables
import TypeLang.Proofs.Decoder.Acceptance
import TypeLang.Proofs.Decoder.Alignment
import TypeLang.Proofs.Decoder.Conformance
import TypeLang.Proofs.Decoder.Congruence
import TypeLang.Proofs.Decoder.Depth
import TypeLang.Proofs.Decoder.DirectCongruence
import TypeLang.Proofs.Decoder.Elementary
import TypeLang.Proofs.Decoder.Enclosing
import TypeLang.Proofs.Decoder.Encoding
import TypeLang.Proofs.Decoder.Envelopes
import TypeLang.Proofs.Decoder.Exactness
import TypeLang.Proofs.Decoder.Ignored
import TypeLang.Proofs.Decoder.Independence
import TypeLang.Proofs.Decoder.JsonValues
import TypeLang.Proofs.Decoder.Layers
import TypeLang.Proofs.Decoder.Limits
import TypeLang.Proofs.Decoder.Locality
import TypeLang.Proofs.Decoder.Meaning
import TypeLang.Proofs.Decoder.Nesting
import TypeLang.Proofs.Decoder.Planned
import TypeLang.Proofs.Decoder.PrintedTypes
import TypeLang.Proofs.Decoder.Records
import TypeLang.Proofs.Decoder.Reports
import TypeLang.Proofs.Decoder.Resolution
import TypeLang.Proofs.Decoder.RowLengths
import TypeLang.Proofs.Decoder.Rows
import TypeLang.Proofs.Decoder.Sessions
import TypeLang.Proofs.Decoder.Soundness
import TypeLang.Proofs.Decoder.Sources
import TypeLang.Proofs.Decoder.StatedLimits
import TypeLang.Proofs.Decoder.Tracing
import TypeLang.Proofs.Decoder.Truncation
import TypeLang.Proofs.Decoder.WellFormed
import TypeLang.Proofs.Json.Keyed
import TypeLang.Proofs.Json.Layers
import TypeLang.Proofs.Number.Double
import TypeLang.Proofs.Plan.Finished
import TypeLang.Proofs.Plan.Making
import TypeLang.Proofs.Results
import TypeLang.Proofs.Schema.Building
import TypeLang.Proofs.Schema.Dangling
import TypeLang.Proofs.Schema.FlagWords
import TypeLang.Proofs.Schema.Gates
import TypeLang.Proofs.Schema.Independence
import TypeLang.Proofs.Schema.Indexes
import TypeLang.Proofs.Schema.Layering
import TypeLang.Proofs.Schema.Losses
import TypeLang.Proofs.Schema.Queue
import TypeLang.Proofs.Schema.Reloading
import TypeLang.Proofs.Schema.Taking
import TypeLang.Proofs.Schema.TypeMeaning
import TypeLang.Proofs.Schema.TypeText
import TypeLang.Proofs.Text.Lines
import TypeLang.Proofs.Text.Numeral
import TypeLang.Proofs.Text.Utf8
import TypeLang.Proofs.Text.Words
import TypeLang.Proofs.Value.Detour
import TypeLang.Proofs.Value.Layers
import TypeLang.Proofs.Value.Lookup
import TypeLang.Proofs.Wire.Following
import TypeLang.Proofs.Wire.Forward
import TypeLang.Proofs.Wire.Ignoring
import TypeLang.Proofs.Wire.Mapped
import TypeLang.Proofs.Wire.Reporting
import TypeLang.Proofs.Wire.Rewriting
import TypeLang.Proofs.Wire.RoundTrip
import TypeLang.Proofs.Wire.Trace
import TypeLang.Proofs.Wire.Walking
import TypeLang.Proofs.Wire.Written
import TypeLang.Schema.Basic
import TypeLang.Schema.Builder
import TypeLang.Schema.Constructor
import TypeLang.Schema.Fault
import TypeLang.Schema.TypeExpr
import TypeLang.Text.Blank
import TypeLang.Text.Cut
import TypeLang.Text.Hex
import TypeLang.Text.Numeral
import TypeLang.Text.Utf8
import TypeLang.Value.Basic
import TypeLang.Value.Json
import TypeLang.Wire.Fault
import TypeLang.Wire.LittleEndian
import TypeLang.Wire.Primitive
import TypeLang.Wire.Reader
import TypeLang.Wire.Shape
import TypeLang.Wire.Tag
import TypeLang.Wire.Writer
