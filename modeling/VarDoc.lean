import VarDoc.Aggregation
import VarDoc.Command
import VarDoc.CommandLine
import VarDoc.Decimal.Binary
import VarDoc.Decimal.Notation
import VarDoc.Decimal.Reading
import VarDoc.Decimal.Shortest
import VarDoc.Dict
import VarDoc.Discovery
import VarDoc.Document
import VarDoc.Document.Reading
import VarDoc.Document.Summary
import VarDoc.FileTree
import VarDoc.Form
import VarDoc.Form.Escape
import VarDoc.Form.Printer
import VarDoc.Form.ReadError
import VarDoc.Form.Reader
import VarDoc.Glob
import VarDoc.Glob.Pattern
import VarDoc.Gzip
import VarDoc.Gzip.Bits
import VarDoc.Gzip.Checksum
import VarDoc.Gzip.Inflate
import VarDoc.Gzip.PrefixCode
import VarDoc.Json
import VarDoc.Json.Raw
import VarDoc.Json.Reading
import VarDoc.Json.Token
import VarDoc.Log
import VarDoc.LogFilter
import VarDoc.Main
import VarDoc.Meta.Json
import VarDoc.Meta.OfForm
import VarDoc.Meta.Record
import VarDoc.Meta.Value
import VarDoc.Namespace.Definition
import VarDoc.Namespace.LoadError
import VarDoc.Namespace.Loading
import VarDoc.Namespace.Registry
import VarDoc.Namespace.Visited
import VarDoc.Path
import VarDoc.Program
import VarDoc.Project
import VarDoc.Project.Clojure
import VarDoc.Proofs.Dict
import VarDoc.Proofs.FileTree
import VarDoc.Proofs.FilesReadOnce
import VarDoc.Proofs.Grammar
import VarDoc.Proofs.Gzip
import VarDoc.Proofs.Inlining
import VarDoc.Proofs.JsonLeaves
import VarDoc.Proofs.JsonLexing
import VarDoc.Proofs.JsonReading
import VarDoc.Proofs.JsonTree
import VarDoc.Proofs.Lexing
import VarDoc.Proofs.LoadResolution
import VarDoc.Proofs.LoadedResources
import VarDoc.Proofs.LoadingSteps
import VarDoc.Proofs.Paths
import VarDoc.Proofs.PlainLoading
import VarDoc.Proofs.PlainPaths
import VarDoc.Proofs.Printable
import VarDoc.Proofs.Printing
import VarDoc.Proofs.Reach
import VarDoc.Proofs.ReaderGrammar
import VarDoc.Proofs.SnapshotReading
import VarDoc.Proofs.Spelling
import VarDoc.Proofs.Storable
import VarDoc.Proofs.StorableDocument
import VarDoc.Proofs.StoredDocument
import VarDoc.Proofs.StoredValue
import VarDoc.Proofs.Traversal
import VarDoc.Proofs.UnplacedDefinition
import VarDoc.Proofs.UnplacedReading
import VarDoc.Proofs.UnplacedRecord
import VarDoc.Settings
import VarDoc.Settings.Entry
import VarDoc.Settings.Token
import VarDoc.Snapshot
import VarDoc.Source.Location
import VarDoc.Source.Span
import VarDoc.Text.Blank
import VarDoc.Text.Bytes
import VarDoc.Text.Hidden
import VarDoc.Text.Quoted
import VarDoc.Token
import VarDoc.Token.Lexer
import VarDoc.Token.Pattern
import VarDoc.Proofs.ReformattedFiles
import VarDoc.Proofs.Reformatting
import VarDoc.Proofs.RegularExpression
import VarDoc.Proofs.PatternLanguage
import VarDoc.Proofs.LongestMatch
import VarDoc.Proofs.AggregatedSources
import VarDoc.Proofs.ResolutionSuccess
import VarDoc.Proofs.TextPositions
import VarDoc.Proofs.LosslessLexing
import VarDoc.Proofs.FiniteDoubles
import VarDoc.Proofs.JsonDecoding
import VarDoc.Proofs.StableSnapshot
import VarDoc.Proofs.SnapshotPlacement
import VarDoc.Proofs.ByteOrder
import VarDoc.Proofs.FormPlaces
import VarDoc.Proofs.InternedNames
import VarDoc.Proofs.VarIdentity
import VarDoc.Proofs.Concatenation
import VarDoc.Proofs.DeclaredName
import VarDoc.Proofs.ReaderContext
import VarDoc.Proofs.ReaderSubstitution
import VarDoc.Proofs.FeatureOrder
import VarDoc.Proofs.MetadataEntries
import VarDoc.Proofs.FunctionMetadata
import VarDoc.Proofs.StackedMetadata
import VarDoc.Proofs.DecimalText
import VarDoc.Proofs.NormalizedRecord
import VarDoc.Proofs.QuotedValue
import VarDoc.Proofs.QuotedMetadata
import VarDoc.Proofs.QuotedRecord
import VarDoc.Proofs.FirstObject
import VarDoc.Proofs.SpannedText
import VarDoc.Proofs.IntegerLiterals
import VarDoc.Proofs.StringEscapes
import VarDoc.Proofs.ReadingProgress
import VarDoc.Proofs.NestedSpans
import VarDoc.Proofs.ProjectOptions
import VarDoc.Proofs.LiteralPatterns
import VarDoc.Proofs.SpelledPaths
import VarDoc.Proofs.PathOrder
import VarDoc.Proofs.PatternPlaces
import VarDoc.Proofs.DiscoveredFiles
import VarDoc.Proofs.LineLocations
import VarDoc.Proofs.RelativePaths
import VarDoc.Proofs.FollowedLoads
