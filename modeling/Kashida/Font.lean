import Kashida.Class.Table
import Kashida.Glyph.Shape
import Kashida.Pattern.Dialect
import Kashida.Rule.Options
import Kashida.Variation.DeltaSets

/-! The font that rules are compiled against: names, classes, shapes, elongation limits and anchor functions. -/
namespace Kashida

/-- Computes an anchor from the names of a glyph and its class, an adjustment, and a left and a right elongation. -/
abbrev AnchorFunction := (glyph category : String) → (adjustment : Point) → (left right : Binary64) → Point

namespace AnchorFunction

/-- The point listed for the glyph, else the one for the class, else the adjustment. -/
def ofPoints (points : List (String × Point)) : AnchorFunction := fun glyph category adjustment _ _ =>
  ((points.lookup glyph).or (points.lookup category)).getD adjustment

/-- How far an elongation moves a point at a rate for each coordinate; fractions are cut off. -/
def travel (elongation : Binary64) (rate : Binary64 × Binary64) : Point :=
  ⟨(elongation.mul rate.1).truncateToInt32, (elongation.mul rate.2).truncateToInt32⟩

/-- The adjusted offset, moving with both elongations. -/
def linear (offset : Point) (leftRate rightRate : Binary64 × Binary64) : AnchorFunction :=
  fun _ _ adjustment left right => adjustment + offset + travel left leftRate + travel right rightRate

end AnchorFunction

structure Font where
  glyphs : GlyphOrder := {}
  classes : ClassTable := {}
  shapes : ShapeProvider := fun _ _ _ => none
  limits : LimitTable := {}
  options : CompileOptions := {}
  functions : Std.TreeMap String AnchorFunction := ∅
  dialect : PatternDialect := Pattern.compile?

namespace Font

def glyphId (font : Font) (name : String) : Except ResolveError GlyphId := font.glyphs.getId name

def glyphName (font : Font) (glyph : GlyphId) : Except ResolveError String := font.glyphs.getName glyph

/-- The glyphs that a name stands for. -/
def resolve (font : Font) (name : String) : Except ResolveError GlyphSet :=
  (font.classes.resolve font.glyphs font.dialect name).1

/-- The glyphs that several names stand for. -/
def resolveAll (font : Font) (names : List String) : Except ResolveError GlyphSet :=
  (font.classes.resolveAll font.glyphs font.dialect names).1

/-- The shape of a glyph at an elongation, which must be there. -/
def shape (font : Font) (glyph : GlyphId) (left right : Binary64) : Except ResolveError Shape :=
  match font.shapes glyph left right with
  | some shape => .ok shape
  | none => .error (.missingShape ((font.glyphs.name? glyph).getD ("#" ++ toString glyph.toNat)))

/-- The limits that the anchors of a glyph vary between. -/
def varyingLimits? (font : Font) (glyph : String) : Option ElongationLimits :=
  if font.options.variableAnchors then font.limits.get? glyph else none

def function (font : Font) (name : String) : Except ResolveError AnchorFunction :=
  match font.functions[name]? with
  | some function => .ok function
  | none => .error (.unknownAnchorFunction name)

/-- Delta sets of a new compilation. -/
def deltaSets (font : Font) : DeltaSets := { normalized := font.options.normalized, uniform := font.limits.uniform }

end Font

end Kashida
