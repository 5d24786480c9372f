/-! Glyph numbers and points of the design grid. -/
namespace Kashida

abbrev GlyphId := UInt16

/-- A point in font units. Coordinates are not limited to 32 bits, so that sums and differences of points are exact. -/
structure Point where
  x : Int
  y : Int
deriving DecidableEq

namespace Point

def zero : Point := ⟨0, 0⟩

def add (p q : Point) : Point := ⟨p.x + q.x, p.y + q.y⟩

def sub (p q : Point) : Point := ⟨p.x - q.x, p.y - q.y⟩

instance : Add Point := ⟨add⟩

instance : Sub Point := ⟨sub⟩

def isZero (p : Point) : Bool := p == zero

def text (p : Point) : String := "(" ++ toString p.x ++ ", " ++ toString p.y ++ ")"

end Point

end Kashida
