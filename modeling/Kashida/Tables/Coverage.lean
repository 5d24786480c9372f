import Kashida.Bytes.Buffer
import Kashida.Bytes.Cursor
import Kashida.Glyph.Set

/-! Coverage tables: a count and that many glyphs. -/
namespace Kashida

/-- The glyphs of a table in the order in which they are stored. A table that was read may hold them in any order. -/
structure Coverage where
  glyphs : List GlyphId
deriving DecidableEq

namespace Coverage

/-- The table of a set, ascending. -/
def ofSet (glyphs : GlyphSet) : Coverage := ⟨glyphs.toList⟩

/-- The table of the listed glyphs, in any order and with repeats. -/
def ofList (glyphs : List GlyphId) : Coverage := ofSet (.ofList glyphs)

/-- Encoded size of a table of `count` glyphs. -/
def sizeFor (count : Nat) : Nat := 4 + 2 * count

def size (coverage : Coverage) : Nat := sizeFor coverage.glyphs.length

def isAscending : List GlyphId → Bool
  | a :: b :: rest => decide (a < b) && isAscending (b :: rest)
  | _ => true

def encode (coverage : Coverage) : Except WriteError (List UInt8) :=
  if isAscending coverage.glyphs then do
    let count ← count16 coverage.glyphs.length
    return word16 1 ++ word16 count ++ words16 coverage.glyphs
  else .error .unsorted

/-- Writes the table at the end of a buffer. The format word stays when the glyphs are too many to count. -/
def write (coverage : Coverage) (buffer : Buffer) : Except WriteError Unit × Buffer :=
  match coverage.encode with
  | .ok bytes => (.ok (), buffer.append bytes)
  | .error .badValue => (.error .badValue, buffer.append (word16 1))
  | .error error => (.error error, buffer)

def read : ReadM ParseError Coverage := do
  let format ← Cursor.step Cursor.word16
  if format = 1 then
    let count ← Cursor.step Cursor.word16
    return ⟨← Cursor.step (Cursor.words16 count.toNat)⟩
  else throw .badVersion

/-- Halves the range of `size` glyphs from `base` on until one is left. -/
def halve (glyphs : Array GlyphId) (glyph : GlyphId) (base size : Nat) : Nat :=
  if 1 < size then
    let half := size / 2
    let middle := base + half
    halve glyphs glyph (if glyph < glyphs.getD middle 0 then base else middle) (size - half)
  else base
termination_by size

/-- The index of a glyph, found by halving. In a table out of order it may be missed, but an index is never wrong. -/
def indexOf? (coverage : Coverage) (glyph : GlyphId) : Option UInt16 :=
  let glyphs := coverage.glyphs.toArray
  let index := halve glyphs glyph 0 glyphs.size
  if glyphs[index]? = some glyph ∧ index ≤ 65535 then some (.ofNat index) else none

end Coverage

end Kashida
