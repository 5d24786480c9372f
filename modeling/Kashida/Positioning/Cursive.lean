import Kashida.Positioning.VariableAnchor
import Kashida.Rule.Positioning
import Kashida.Tables.Coverage

/-! Cursive attachment: the exit of a glyph meets the entry of the next. -/
namespace Kashida

inductive CursiveSide where
  | entry
  | exit
deriving DecidableEq

def CursiveEnds.get (anchors : CursiveEnds) : CursiveSide → Option AnchorSpec
  | .entry => anchors.entry
  | .exit => anchors.exit

/-- Anchors of each glyph and what is added to them. The name is also that of an anchor which elongated shapes may
carry. -/
structure CursiveAttachment where
  name : String
  anchors : Std.TreeMap GlyphId CursiveEnds
  entryAdjustments : Std.TreeMap GlyphId Point := ∅
  exitAdjustments : Std.TreeMap GlyphId Point := ∅

namespace CursiveAttachment

/-- A glyph of several classes takes the anchors of the last. -/
def ofRule (font : Font) (name : String) (rule : CursiveRule) : Except ResolveError CursiveAttachment := do
  let anchors ← rule.foldlM (fun (anchors : Std.TreeMap GlyphId CursiveEnds) (category, ends) => do
    let glyphs ← font.resolve category
    return glyphs.toList.foldl (fun anchors glyph => anchors.insert glyph ends) anchors) ∅
  return { name, anchors }

def adjustments (table : CursiveAttachment) : CursiveSide → Std.TreeMap GlyphId Point
  | .entry => table.entryAdjustments
  | .exit => table.exitAdjustments

def setAdjustment (table : CursiveAttachment) (side : CursiveSide) (glyph : GlyphId) (point : Point) :
    CursiveAttachment :=
  match side with
  | .entry => { table with entryAdjustments := table.entryAdjustments.insert glyph point }
  | .exit => { table with exitAdjustments := table.exitAdjustments.insert glyph point }

/-- Takes over adjustments of one side up to the first unknown glyph. -/
def mergeSide (font : Font) (table : CursiveAttachment) (side : CursiveSide) :
    ByName Point → Except ResolveError Unit × CursiveAttachment
  | [] => (.ok (), table)
  | (name, point) :: rest =>
      match font.glyphId name with
      | .ok glyph => mergeSide font (table.setAdjustment side glyph point) side rest
      | .error error => (.error error, table)

/-- Takes over entries, then exits, up to the first unknown glyph. -/
def merge (font : Font) (table : CursiveAttachment) (parameters : CursiveParameters) :
    Except ResolveError Unit × CursiveAttachment :=
  match mergeSide font table .entry parameters.entry with
  | (.ok (), table) => mergeSide font table .exit parameters.exit
  | (.error error, table) => (.error error, table)

/-- The adjustments of one side that change something, by glyph number. -/
def saveSide (font : Font) (table : CursiveAttachment) (side : CursiveSide) : Except ResolveError (ByName Point) :=
  ((table.adjustments side).toList.filter fun (_, point) => !point.isZero).mapM fun (glyph, point) => do
    return (← font.glyphName glyph, point)

def save (font : Font) (table : CursiveAttachment) : Except ResolveError CursiveParameters := do
  return ⟨← saveSide font table .entry, ← saveSide font table .exit⟩

/-- How the rule gives the anchor of a glyph. -/
def anchorSpec? (table : CursiveAttachment) (side : CursiveSide) (glyph : GlyphId) : Option AnchorSpec :=
  table.anchors[glyph]?.bind fun anchors => anchors.get side

/-- The anchor without adjustment or elongation: a point of the rule, or the named anchor of the default shape. -/
def base (font : Font) (table : CursiveAttachment) (side : CursiveSide) (glyph : GlyphId) :
    Except ResolveError (Option Point) :=
  match table.anchorSpec? side glyph with
  | some (.point point) => .ok (some point)
  | some (.name name) => do return (← font.shape glyph .zero .zero).anchor? name
  | none => .ok none

/-- The anchor that a shape carries itself: under the name the rule gives, else under the name of the attachment. -/
def carried? (table : CursiveAttachment) (side : CursiveSide) (glyph : GlyphId) (shape : Shape) : Option Point :=
  let named := match table.anchorSpec? side glyph with
    | some (.name name) => shape.anchor? name
    | _ => none
  named.or (shape.anchor? table.name)

/-- The anchor at an elongation. What the elongated shape carries stands as it is. Otherwise the adjusted base is used,
and an entry follows the change of width. -/
def position (font : Font) (table : CursiveAttachment) (side : CursiveSide) (glyph : GlyphId) (base : Point)
    (left right : Binary64) : Except ResolveError Point := do
  let adjusted := base + (table.adjustments side).getD glyph .zero
  if left.isZero && right.isZero then return adjusted
  let elongated ← font.shape glyph left right
  match table.carried? side glyph elongated, side with
  | some point, _ => return point
  | none, .entry =>
      let default ← font.shape glyph .zero .zero
      return adjusted + ⟨(elongated.width.sub default.width).roundToInt32, 0⟩
  | none, .exit => return adjusted

/-- The anchor of a glyph at an elongation, if it has one. -/
def anchorAt (font : Font) (table : CursiveAttachment) (side : CursiveSide) (glyph : GlyphId)
    (left right : Binary64) : Except ResolveError (Option Point) := do
  match ← table.base font side glyph with
  | some base => some <$> table.position font side glyph base left right
  | none => return none

def anchor (font : Font) (table : CursiveAttachment) (side : CursiveSide) (glyph : GlyphId) :
    VariationM (Option Anchor) := do
  match ← table.base font side glyph with
  | none => return none
  | some base =>
      let default ← table.position font side glyph base .zero .zero
      let name ← font.glyphName glyph
      some <$> Anchor.varying font name default fun left right => table.position font side glyph base left right

/-- Offsets of anchors that follow one another; an absent anchor has offset zero. -/
def placeAnchors (counter : OffsetCounter) : List (Option Anchor) → Except WriteError (List UInt16)
  | [] => .ok []
  | none :: anchors => do return 0 :: (← placeAnchors counter anchors)
  | some anchor :: anchors => do
      let (offset, counter) ← counter.advance anchor.size
      return offset :: (← placeAnchors counter anchors)

/-- The table of the covered glyphs, with an entry and an exit for each of them in turn. -/
def layout (glyphs : List GlyphId) (anchors : List (Option Anchor)) : Except WriteError (List UInt8) := do
  let coverage := Coverage.ofList glyphs
  let coverageAt := 6 + 4 * glyphs.length
  let coverageOffset ← count16 coverageAt
  let count ← count16 glyphs.length
  let offsets ← placeAnchors ⟨coverageAt + coverage.size⟩ anchors
  let coverageBytes ← coverage.encode
  return word16 1 ++ word16 coverageOffset ++ word16 count ++ words16 offsets ++ coverageBytes ++
    (anchors.filterMap id).flatMap Anchor.bytes

def encode (font : Font) (table : CursiveAttachment) : VariationM (List UInt8) := do
  let glyphs := table.anchors.keys
  let anchors ← glyphs.mapM fun glyph => do
    return [← table.anchor font .entry glyph, ← table.anchor font .exit glyph]
  layout glyphs anchors.flatten

end CursiveAttachment

end Kashida
