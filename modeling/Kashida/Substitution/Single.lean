import Kashida.Font
import Kashida.Rule.Substitution
import Kashida.Tables.Coverage

/-! One-to-one substitutions, plain or with elongation values.

A table with elongation values is written as a plain one when the font is not extended: the value that matters then
selects the shape that is substituted. -/
namespace Kashida

structure SingleEntry where
  substitute : GlyphId
  expansion : Expansion := {}
deriving DecidableEq

structure SingleSubstitution where
  format : SingleFormat
  entries : Std.TreeMap GlyphId SingleEntry

namespace Axis

def minimum : Axis → LimitField
  | .left => .minLeft
  | .right => .minRight

def maximum : Axis → LimitField
  | .left => .maxLeft
  | .right => .maxRight

end Axis

/-- Writes elongation values of one glyph. -/
structure ElongationScale where
  font : Font
  glyph : String
  limits : ElongationLimits

namespace ElongationScale

/-- The scale of a substitute, which must have a name. -/
def ofGlyph (font : Font) (glyph : GlyphId) : Except ResolveError ElongationScale := do
  let name ← font.glyphName glyph
  return ⟨font, name, font.limits.getOrZero name⟩

/-- A value as it stands, or as a fraction of the bound on its side of zero. Only fractions are held to a range. -/
def encode (scale : ElongationScale) (field : LimitField) (low high value : Binary64) : Except CompileError Fixed :=
  if scale.font.options.normalized then
    if value < low then .error (.axisBounds ⟨scale.glyph, field, value, low⟩)
    else if high < value then .error (.axisBounds ⟨scale.glyph, field, value, high⟩)
    else
      let bound := if value < .zero then field.axis.minimum else field.axis.maximum
      (Fixed.ofRounded (normalize value (scale.font.limits.scaleBound bound scale.limits))).mapError .write
  else (Fixed.ofRounded (.finite value)).mapError .write

/-- A value anywhere between the limits of its axis. -/
def value (scale : ElongationScale) (field : LimitField) (value : Binary64) : Except CompileError Fixed :=
  let lowest := scale.limits.get field.axis.minimum
  let highest := scale.limits.get field.axis.maximum
  scale.encode field (if lowest < .zero then lowest else .zero) (if .zero < highest then highest else .zero) value

/-- A value between zero and one limit. -/
def limit (scale : ElongationScale) (field : LimitField) (value : Binary64) : Except CompileError Fixed :=
  if field.isMinimum then scale.encode field (scale.limits.get field) .zero value
  else scale.encode field .zero (scale.limits.get field) value

end ElongationScale

namespace SingleSubstitution

def ofRule (font : Font) (rule : SingleRule) : Except ResolveError SingleSubstitution := do
  let entries ← rule.foldlM (fun (entries : Std.TreeMap GlyphId SingleEntry) (glyph, substitute) => do
    let glyph ← font.glyphId glyph
    let substitute ← font.glyphId substitute
    return entries.insert glyph ⟨substitute, {}⟩) ∅
  return ⟨.plain, entries⟩

def ofElongations (font : Font) (format : SingleFormat) (rule : ElongationRule) :
    Except ResolveError SingleSubstitution := do
  let entries ← rule.foldlM (fun (entries : Std.TreeMap GlyphId SingleEntry) (glyph, elongation) => do
    let glyph ← font.glyphId glyph
    let substitute ← font.glyphId elongation.substitute
    return entries.insert glyph ⟨substitute, elongation.expansion⟩) ∅
  return ⟨format, entries⟩

def isExtended (table : SingleSubstitution) : Bool := table.format ≠ .plain

/-- Each glyph with its substitute, ascending. -/
def pairs (table : SingleSubstitution) : List (GlyphId × GlyphId) :=
  table.entries.toList.map fun (glyph, entry) => (glyph, entry.substitute)

/-- The elongation that selects the shape when the values themselves are not written: the least for tatweel, the
greatest for expansion. -/
def selection (format : SingleFormat) (expansion : Expansion) : Binary64 × Binary64 :=
  match format with
  | .expansion => (expansion.maxLeft, expansion.maxRight)
  | _ => (expansion.minLeft, expansion.minRight)

/-- The glyph that stands for a substitute at its elongation. -/
def flatten (font : Font) (format : SingleFormat) (entry : SingleEntry) : Except ResolveError GlyphId :=
  let (left, right) := selection format entry.expansion
  if left.isZero && right.isZero then .ok entry.substitute
  else (font.shape entry.substitute left right).map Shape.glyph

/-- Substitutes in the order of the coverage. -/
def encodePairs (pairs : List (GlyphId × GlyphId)) : Except WriteError (List UInt8) := do
  let count ← count16 pairs.length
  let coverageAt ← offset16 (6 + 2 * pairs.length)
  let coverage ← (Coverage.ofList (pairs.map Prod.fst)).encode
  return word16 SingleFormat.plain.number ++ word16 coverageAt ++ word16 count ++ words16 (pairs.map Prod.snd) ++
    coverage

/-- A substitute and its values. -/
def encodeEntry (font : Font) (format : SingleFormat) (entry : SingleEntry) : Except CompileError (List UInt8) := do
  let scale ← ElongationScale.ofGlyph font entry.substitute
  let expansion := entry.expansion
  match format with
  | .expansion =>
      let minLeft ← scale.limit .minLeft expansion.minLeft
      let maxLeft ← scale.limit .maxLeft expansion.maxLeft
      let minRight ← scale.limit .minRight expansion.minRight
      let maxRight ← scale.limit .maxRight expansion.maxRight
      return word16 entry.substitute ++ minLeft.bytes ++ maxLeft.bytes ++ minRight.bytes ++ maxRight.bytes ++
        word16 expansion.weight ++ word32 expansion.flags
  | _ =>
      let left ← scale.value .minLeft expansion.minLeft
      let right ← scale.value .minRight expansion.minRight
      return word16 entry.substitute ++ left.bytes ++ right.bytes

def encodeExtended (font : Font) (table : SingleSubstitution) : Except CompileError (List UInt8) := do
  let entries := table.entries.toList
  let count ← count16 entries.length
  let records ← entries.mapM fun (_, entry) => encodeEntry font table.format entry
  let coverageAt ← offset16 (6 + records.flatten.length)
  let coverage ← (Coverage.ofList (entries.map Prod.fst)).encode
  return word16 table.format.number ++ word16 coverageAt ++ word16 count ++ records.flatten ++ coverage

def encode (font : Font) (table : SingleSubstitution) : Except CompileError (List UInt8) := do
  if table.isExtended then
    if font.options.extended then encodeExtended font table
    else
      let pairs ← table.entries.toList.mapM fun (glyph, entry) => do
        return (glyph, ← flatten font table.format entry)
      encodePairs pairs
  else encodePairs table.pairs

end SingleSubstitution

end Kashida
