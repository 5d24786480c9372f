import Kashida.Font
import Kashida.Rule.Positioning
import Kashida.Tables.Coverage

/-! Adjustments of single glyphs by value records. -/
namespace Kashida

structure SingleAdjustment where
  records : Std.TreeMap GlyphId ValueRecord
  /-- What is added to the records. -/
  adjustments : Std.TreeMap GlyphId ValueRecord := ∅

namespace SingleAdjustment

/-- A glyph of several classes takes the record of the last. -/
def ofRule (font : Font) (rule : AdjustmentRule) : Except ResolveError SingleAdjustment := do
  let records ← rule.foldlM (fun (records : Std.TreeMap GlyphId ValueRecord) (category, record) => do
    let glyphs ← font.resolve category
    return glyphs.toList.foldl (fun records glyph => records.insert glyph record) records) ∅
  return { records }

def setAdjustment (table : SingleAdjustment) (glyph : GlyphId) (record : ValueRecord) : SingleAdjustment :=
  { table with adjustments := table.adjustments.insert glyph record }

/-- Takes over adjustments up to the first unknown glyph. -/
def merge (font : Font) (table : SingleAdjustment) :
    ByName ValueRecord → Except ResolveError Unit × SingleAdjustment
  | [] => (.ok (), table)
  | (name, record) :: rest =>
      match font.glyphId name with
      | .ok glyph => merge font (table.setAdjustment glyph record) rest
      | .error error => (.error error, table)

/-- The adjustments that change something, by glyph number. -/
def save (font : Font) (table : SingleAdjustment) : Except ResolveError AdjustmentParameters := do
  let changes := table.adjustments.toList.filter fun (_, record) => !record.isZero
  return ⟨← changes.mapM fun (glyph, record) => do return (← font.glyphName glyph, record)⟩

/-- The record of a glyph with its adjustment. -/
def adjusted (table : SingleAdjustment) (glyph : GlyphId) (record : ValueRecord) : Except WriteError ValueRecord :=
  match table.adjustments[glyph]? with
  | some adjustment => record.add adjustment
  | none => .ok record

/-- Placement and advance in both directions are all written. -/
def valueFormat : UInt16 := 0x000F

def encode (table : SingleAdjustment) : Except WriteError (List UInt8) := do
  let entries := table.records.toList
  let count ← count16 entries.length
  let records ← entries.mapM fun (glyph, record) => table.adjusted glyph record
  let coverageAt ← offset16 (8 + 8 * entries.length)
  let coverage ← (Coverage.ofList (entries.map Prod.fst)).encode
  return word16 2 ++ word16 coverageAt ++ word16 valueFormat ++ word16 count ++ records.flatMap ValueRecord.bytes ++
    coverage

end SingleAdjustment

end Kashida
