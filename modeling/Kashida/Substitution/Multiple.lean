import Kashida.Bytes.Blocks
import Kashida.Font
import Kashida.Rule.Substitution
import Kashida.Tables.Coverage

/-! One-to-many substitutions. -/
namespace Kashida

structure MultipleSubstitution where
  sequences : Std.TreeMap GlyphId (List GlyphId)

namespace MultipleSubstitution

/-- The glyphs of a sequence are looked up before the glyph that it replaces. -/
def ofRule (font : Font) (rule : SequenceRule) : Except ResolveError MultipleSubstitution := do
  let sequences ← rule.foldlM (fun (sequences : Std.TreeMap GlyphId (List GlyphId)) (glyph, names) => do
    let sequence ← names.mapM font.glyphId
    let glyph ← font.glyphId glyph
    return sequences.insert glyph sequence) ∅
  return ⟨sequences⟩

def encodeSequence (glyphs : List GlyphId) : Except WriteError (List UInt8) := do
  let count ← count16 glyphs.length
  return word16 count ++ words16 glyphs

/-- Sequences follow the coverage in its order. -/
def encode (table : MultipleSubstitution) : Except WriteError (List UInt8) := do
  let entries := table.sequences.toList
  let count ← count16 entries.length
  let coverageAt := 6 + 2 * entries.length
  let coverageOffset ← offset16 coverageAt
  let coverage ← (Coverage.ofList (entries.map Prod.fst)).encode
  let (offsets, blocks) ← placeBlocks encodeSequence (coverageAt + coverage.length) (entries.map Prod.snd)
  return word16 1 ++ word16 coverageOffset ++ word16 count ++ words16 offsets ++ coverage ++ blocks

end MultipleSubstitution

end Kashida
