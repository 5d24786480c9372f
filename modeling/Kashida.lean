import Kashida.Bytes.Blocks
import Kashida.Bytes.Buffer
import Kashida.Bytes.Cursor
import Kashida.Bytes.Scalar
import Kashida.Class.Table
import Kashida.Compiler
import Kashida.Contextual.Chained
import Kashida.Error
import Kashida.Font
import Kashida.Glyph.Basic
import Kashida.Glyph.Order
import Kashida.Glyph.Set
import Kashida.Glyph.Shape
import Kashida.Json.Basic
import Kashida.Json.Decoder
import Kashida.Json.Reader
import Kashida.Json.Writer
import Kashida.Lookup.Basic
import Kashida.Lookup.Names
import Kashida.Lookup.Subtable
import Kashida.Number.Binary64
import Kashida.Number.Decimal
import Kashida.Number.FixedPoint
import Kashida.Pattern.Automaton
import Kashida.Pattern.Basic
import Kashida.Pattern.Beginning
import Kashida.Pattern.Bracket
import Kashida.Pattern.Dialect
import Kashida.Pattern.Escape
import Kashida.Pattern.Footprint
import Kashida.Pattern.Parser
import Kashida.Positioning.Adjustment
import Kashida.Positioning.Cursive
import Kashida.Positioning.Mark
import Kashida.Positioning.VariableAnchor
import Kashida.Proofs.Bytes.Consuming
import Kashida.Proofs.Bytes.Fitting
import Kashida.Proofs.Bytes.Linking
import Kashida.Proofs.Bytes.Placeholders
import Kashida.Proofs.Bytes.Placement
import Kashida.Proofs.Bytes.Reading
import Kashida.Proofs.Bytes.Rejecting
import Kashida.Proofs.Bytes.Reserving
import Kashida.Proofs.Bytes.Scalars
import Kashida.Proofs.Bytes.Viewing
import Kashida.Proofs.Caching
import Kashida.Proofs.Class.Closure
import Kashida.Proofs.Class.Codes
import Kashida.Proofs.Class.Memory
import Kashida.Proofs.Class.Resolution
import Kashida.Proofs.Class.Union
import Kashida.Proofs.Compilation
import Kashida.Proofs.Contextual.ChainedReader
import Kashida.Proofs.Fallible
import Kashida.Proofs.Glyph.Order
import Kashida.Proofs.Lookup.Encoding
import Kashida.Proofs.Lookup.Layouts
import Kashida.Proofs.Lookup.Names
import Kashida.Proofs.Lookup.Nesting
import Kashida.Proofs.Lookup.Overflow
import Kashida.Proofs.Lookup.Remaking
import Kashida.Proofs.Lookup.Subtables
import Kashida.Proofs.Number.Rounding
import Kashida.Proofs.Overriding
import Kashida.Proofs.Positioning.AdjustmentReader
import Kashida.Proofs.Positioning.CursiveLayout
import Kashida.Proofs.Positioning.CursiveMeaning
import Kashida.Proofs.Positioning.CursiveReader
import Kashida.Proofs.Positioning.MarkLayout
import Kashida.Proofs.Positioning.MarkReader
import Kashida.Proofs.Positioning.MarkReadjusting
import Kashida.Proofs.Positioning.MarkSaving
import Kashida.Proofs.Positioning.NamedBlocks
import Kashida.Proofs.Positioning.NamedValues
import Kashida.Proofs.Positioning.Refusing
import Kashida.Proofs.Positioning.Restoring
import Kashida.Proofs.Provenance
import Kashida.Proofs.Rebuilding
import Kashida.Proofs.Recompilation
import Kashida.Proofs.References
import Kashida.Proofs.Registration
import Kashida.Proofs.Session
import Kashida.Proofs.Substitution.Elongation
import Kashida.Proofs.Substitution.LigatureReader
import Kashida.Proofs.Substitution.MultipleReader
import Kashida.Proofs.Substitution.SingleReader
import Kashida.Proofs.Tables
import Kashida.Proofs.Tables.Anchor
import Kashida.Proofs.Tables.Coverage
import Kashida.Proofs.Tables.CoveredArray
import Kashida.Proofs.Text.ByteOrder
import Kashida.Proofs.Variation.Growth
import Kashida.Proofs.Variation.Normalizing
import Kashida.Proofs.Variation.OpenGroups
import Kashida.Proofs.Variation.Peaks
import Kashida.Proofs.Variation.Sharing
import Kashida.Proofs.Variation.Steps
import Kashida.Proofs.Variation.StoreReader
import Kashida.Rule.Basic
import Kashida.Rule.Chaining
import Kashida.Rule.Options
import Kashida.Rule.Positioning
import Kashida.Rule.Substitution
import Kashida.Substitution.Ligature
import Kashida.Substitution.Multiple
import Kashida.Substitution.Single
import Kashida.Tables.Anchor
import Kashida.Tables.Coverage
import Kashida.Tables.ValueRecord
import Kashida.Text.ByteRanges
import Kashida.Text.CaseFold
import Kashida.Text.CharClass
import Kashida.Text.CharSet
import Kashida.Text.Hex
import Kashida.Variation.DeltaSets
import Kashida.Variation.Limits
import Kashida.Variation.Store
