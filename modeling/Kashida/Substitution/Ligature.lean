import Kashida.Bytes.Blocks
import Kashida.Font
import Kashida.Rule.Substitution
import Kashida.Tables.Coverage

/-! Ligatures: many-to-one substitutions, found by their first component. -/
namespace Kashida

structure Ligature where
  glyph : GlyphId
  first : GlyphId
  /-- Components after the first. -/
  rest : List GlyphId
deriving DecidableEq

def Ligature.components (ligature : Ligature) : List GlyphId := ligature.first :: ligature.rest

/-- Ligatures in document order. -/
structure LigatureSubstitution where
  ligatures : List Ligature
deriving DecidableEq

namespace LigatureSubstitution

/-- A ligature without components is left out. Components are looked up before the ligature itself. -/
def ofRule (font : Font) : SequenceRule → Except ResolveError LigatureSubstitution
  | [] => .ok ⟨[]⟩
  | (_, []) :: rule => ofRule font rule
  | (glyph, first :: rest) :: rule => do
      let first ← font.glyphId first
      let rest ← rest.mapM font.glyphId
      let glyph ← font.glyphId glyph
      let table ← ofRule font rule
      return ⟨⟨glyph, first, rest⟩ :: table.ligatures⟩

/-- First components, ascending. -/
def firsts (table : LigatureSubstitution) : GlyphSet := .ofList (table.ligatures.map Ligature.first)

/-- The ligatures that start with a glyph, in document order. -/
def startingWith (table : LigatureSubstitution) (first : GlyphId) : List Ligature :=
  table.ligatures.filter fun ligature => ligature.first == first

/-- Ligatures by first component. -/
def sets (table : LigatureSubstitution) : List (GlyphId × List Ligature) :=
  table.firsts.toList.map fun first => (first, table.startingWith first)

/-- The coverage holds the first component already, so that only the others are written. -/
def encodeLigature (ligature : Ligature) : Except WriteError (List UInt8) := do
  let count ← count16 ligature.components.length
  return word16 ligature.glyph ++ word16 count ++ words16 ligature.rest

def encodeSet (ligatures : List Ligature) : Except WriteError (List UInt8) := do
  let count ← count16 ligatures.length
  let (offsets, blocks) ← placeBlocks encodeLigature (2 + 2 * ligatures.length) ligatures
  return word16 count ++ words16 offsets ++ blocks

def encode (table : LigatureSubstitution) : Except WriteError (List UInt8) := do
  let count ← count16 table.sets.length
  let coverageAt := 6 + 2 * table.sets.length
  let coverageOffset ← offset16 coverageAt
  let coverage ← (Coverage.ofSet table.firsts).encode
  let (offsets, blocks) ← placeBlocks encodeSet (coverageAt + coverage.length) (table.sets.map Prod.snd)
  return word16 1 ++ word16 coverageOffset ++ word16 count ++ words16 offsets ++ coverage ++ blocks

end LigatureSubstitution

end Kashida
