import SourceChunks.Chunk.Basic
import SourceChunks.Chunk.Bound
import SourceChunks.Chunk.Build
import SourceChunks.Chunk.Dedupe
import SourceChunks.Chunk.Identity
import SourceChunks.Chunk.Pool
import SourceChunks.Chunk.Raw
import SourceChunks.Chunk.Shared
import SourceChunks.Chunk.Stream
import SourceChunks.CommandLine.Arguments
import SourceChunks.CommandLine.Report
import SourceChunks.Declaration.Basic
import SourceChunks.Declaration.Callable
import SourceChunks.Declaration.Kind
import SourceChunks.Declaration.Locate
import SourceChunks.Declaration.Names
import SourceChunks.Declaration.Patterns
import SourceChunks.Declaration.Signature
import SourceChunks.Digest.Sha256
import SourceChunks.Document.Basic
import SourceChunks.Document.Decode
import SourceChunks.Document.Encode
import SourceChunks.Document.Fields
import SourceChunks.Document.FileName
import SourceChunks.Document.IsoTime
import SourceChunks.Document.Issue
import SourceChunks.Document.Record
import SourceChunks.Document.Store
import SourceChunks.Document.Timestamp
import SourceChunks.Files.Discovery
import SourceChunks.Files.Glob
import SourceChunks.Files.Path
import SourceChunks.Files.Tree
import SourceChunks.Json.Printer
import SourceChunks.Json.Reader
import SourceChunks.Json.Shown
import SourceChunks.Json.Value
import SourceChunks.Logging.Level
import SourceChunks.Logging.Setup
import SourceChunks.Main
import SourceChunks.Number.Binary64
import SourceChunks.Number.Numeral
import SourceChunks.Number.Shortest
import SourceChunks.Pattern.Basic
import SourceChunks.Pattern.Search
import SourceChunks.Run
import SourceChunks.Settings.Basic
import SourceChunks.Settings.Config
import SourceChunks.Settings.Load
import SourceChunks.Source.Bisection
import SourceChunks.Source.BlockMap
import SourceChunks.Source.Bracket
import SourceChunks.Source.Mask
import SourceChunks.Source.Position
import SourceChunks.Span
import SourceChunks.Text.Blank
import SourceChunks.Text.CaseTable
import SourceChunks.Text.CodePoint
import SourceChunks.Text.Digit
import SourceChunks.Text.Encoding
import SourceChunks.Text.Hex
import SourceChunks.Text.Lines
import SourceChunks.Text.Lowercase
import SourceChunks.Text.Order
import SourceChunks.Text.Quoted
import SourceChunks.Text.Ranges
import SourceChunks.Text.UnprintableTable
import SourceChunks.Text.Word
import SourceChunks.Text.WordTable
import SourceChunks.Toml.Reader
import SourceChunks.Toml.Table
import SourceChunks.Version
import SourceChunks.Proofs.Json.Leaf
import SourceChunks.Proofs.Json.RoundTrip
import SourceChunks.Proofs.Document.Fields
import SourceChunks.Proofs.Chunk.Concatenation
import SourceChunks.Proofs.Document.Persistence
import SourceChunks.Proofs.Document.RecordKeys
import SourceChunks.Proofs.Source.Points
import SourceChunks.Proofs.Declaration.Spans
import SourceChunks.Proofs.Chunk.Bounding
import SourceChunks.Proofs.Declaration.Listing
import SourceChunks.Proofs.Chunk.Listing
import SourceChunks.Proofs.Chunk.Ownership
import SourceChunks.Proofs.Chunk.Totality
import SourceChunks.Proofs.Declaration.Overlap
import SourceChunks.Proofs.Chunk.LineEnds
import SourceChunks.Proofs.Declaration.Whole
import SourceChunks.Proofs.Chunk.Deduplication
import SourceChunks.Proofs.Document.Batch
import SourceChunks.Proofs.Chunk.Schedule
import SourceChunks.Proofs.Chunk.Batches
import SourceChunks.Proofs.Source.Lexemes
import SourceChunks.Proofs.Declaration.Parameters
import SourceChunks.Proofs.Document.Runs
import SourceChunks.Proofs.Source.Outermost
import SourceChunks.Proofs.Declaration.ReturnTypes
import SourceChunks.Proofs.Chunk.Coverage
import SourceChunks.Proofs.Source.Derivation
import SourceChunks.Proofs.Chunk.Excerpts
import SourceChunks.Proofs.Chunk.Signatures
import SourceChunks.Proofs.Files.Discovery
import SourceChunks.Proofs.Files.ListingOrder
import SourceChunks.Proofs.Declaration.ServiceLayout
import SourceChunks.Proofs.Source.Offsets
import SourceChunks.Proofs.Chunk.Identity
