import Kashida.Glyph.Basic
import Kashida.Number.Binary64
import Std.Data.TreeMap

/-! Shapes: what a glyph looks like at an elongation. -/
namespace Kashida

/-- The glyph that is drawn, its width and its named anchor points. -/
structure Shape where
  glyph : GlyphId
  width : Binary64
  anchors : Std.TreeMap String Point := ∅

namespace Shape

def insertAnchor (shape : Shape) (name : String) (point : Point) : Shape :=
  { shape with anchors := shape.anchors.insert name point }

def anchor? (shape : Shape) (name : String) : Option Point := shape.anchors[name]?

end Shape

/-- Finds the shape of a glyph at a left and a right elongation. -/
abbrev ShapeProvider := GlyphId → Binary64 → Binary64 → Option Shape

/-- Shapes listed for single elongations. -/
structure ShapeIndex where
  shapes : Std.TreeMap (List Nat) Shape := ∅

namespace ShapeIndex

/-- Both zeros are one elongation. -/
def elongationKey (x : Binary64) : Nat := if x.isZero then 0 else x.bits

def key (glyph : GlyphId) (left right : Binary64) : List Nat :=
  [glyph.toNat, elongationKey left, elongationKey right]

def insert (table : ShapeIndex) (glyph : GlyphId) (left right : Binary64) (shape : Shape) : ShapeIndex :=
  ⟨table.shapes.insert (key glyph left right) shape⟩

def shape? (table : ShapeIndex) : ShapeProvider := fun glyph left right => table.shapes[key glyph left right]?

def size (table : ShapeIndex) : Nat := table.shapes.size

end ShapeIndex

end Kashida
