import PortableSql.Main
import PortableSql.Translator.Session
import PortableSql.Proofs.Query.Lexis
import PortableSql.Proofs.Query.Pieces
import PortableSql.Proofs.Query.Trimming
import PortableSql.Proofs.Query.CallTree
import PortableSql.Proofs.Result
import PortableSql.Proofs.Query.Expansion
import PortableSql.Proofs.Query.Semantics
import PortableSql.Proofs.Query.ArgumentTokens
import PortableSql.Proofs.Query.Comments
import PortableSql.Proofs.Catalog.Template
import PortableSql.Proofs.Query.Containment
import PortableSql.Proofs.Query.Literals
import PortableSql.Proofs.Compression.Gzip
import PortableSql.Proofs.Number.Scaling
import PortableSql.Proofs.Number.Widening
import PortableSql.Proofs.Value.Forms
import PortableSql.Proofs.Value.Guids
import PortableSql.Proofs.Value.RoundTrip
import PortableSql.Proofs.Compression.Zlib
import PortableSql.Proofs.Image.Png.Chunks
import PortableSql.Proofs.Image.Png.RoundTrip
import PortableSql.Proofs.Query.Places
import PortableSql.Proofs.Query.ErrorPositions
import PortableSql.Proofs.Query.ArgumentPlaces
import PortableSql.Proofs.Query.Nesting
import PortableSql.Proofs.Placeholder.Substitution
import PortableSql.Proofs.Translator.Translation
import PortableSql.Proofs.Arithmetic.Expression
import PortableSql.Proofs.Arithmetic.Remainder
import PortableSql.Proofs.Catalog.Registration
import PortableSql.Proofs.Dialect.QuotedNames
import PortableSql.Proofs.Query.Enclosure
import PortableSql.Proofs.Dialect.Vocabulary
import PortableSql.Proofs.Number.IntegerText
import PortableSql.Proofs.Value.Integers
import PortableSql.Proofs.Value.Links
import PortableSql.Proofs.Value.StoredTypes
import PortableSql.Proofs.Query.Dependence
import PortableSql.Proofs.Translator.Sessions
import PortableSql.Proofs.Translator.OnDemand
import PortableSql.Proofs.Placeholder.Holes
import PortableSql.Proofs.Placeholder.Histories
import PortableSql.Proofs.Query.Scan
import PortableSql.Proofs.Query.Seams
import PortableSql.Proofs.Placeholder.Literals
import PortableSql.Proofs.Translator.Retranslation
import PortableSql.Proofs.Placeholder.Skeleton
import PortableSql.Proofs.Placeholder.QuerySkeleton
import PortableSql.Proofs.Command.Filling
import PortableSql.Proofs.Command.Passes
import PortableSql.Proofs.Query.Parentheses
import PortableSql.Proofs.Query.Acceptance
import PortableSql.Proofs.Query.Statements
import PortableSql.Proofs.Catalog.Layout
import PortableSql.Proofs.Image.Pixels
import PortableSql.Proofs.Calendar.Days
import PortableSql.Proofs.Placeholder.Dates
import PortableSql.Proofs.Calendar.BareDates
import PortableSql.Proofs.Value.Dates
import PortableSql.Proofs.Value.FixedWidth
import PortableSql.Proofs.Value.Colors
import PortableSql.Proofs.Text.LetterCase
import PortableSql.Proofs.Catalog.Representation
import PortableSql.Proofs.Command.Overrides
import PortableSql.Proofs.Value.Bits
import PortableSql.Proofs.Placeholder.Names
import PortableSql.Proofs.Query.CalleeCase
import PortableSql.Proofs.Dialect.Growth
import PortableSql.Proofs.Query.ClosedLists
