import Kashida.Font

/-! Anchors that move with the elongation of their glyph. -/
namespace Kashida

/-- Steps that may hand out delta sets. What was handed out stays when a later step fails. -/
abbrev VariationM := ExceptT CompileError (StateM DeltaSets)

/-- The delta sets of both coordinates of a point. -/
def DeltaSets.pair (glyph : String) (x y : EndDeltas) (limits : ElongationLimits) :
    VariationM (DeltaSetIndex × DeltaSetIndex) :=
  fun sets => sets.allocatePoint glyph x y limits

namespace Anchor

/-- The anchor of a glyph that is at `default` when nothing is elongated. If the glyph has limits, the anchor is
evaluated at the four ends of its axes and varies between them. -/
def varying (font : Font) (glyph : String) (default : Point)
    (position : Binary64 → Binary64 → Except ResolveError Point) : VariationM Anchor := do
  match font.varyingLimits? glyph with
  | none => Anchor.ofPoint default
  | some limits =>
      let maxLeft ← position limits.maxLeft .zero
      let minLeft ← position limits.minLeft .zero
      let maxRight ← position .zero limits.maxRight
      let minRight ← position .zero limits.minRight
      let (xVariation, yVariation) ← DeltaSets.pair glyph
        (.between default.x maxLeft.x minLeft.x maxRight.x minRight.x)
        (.between default.y maxLeft.y minLeft.y maxRight.y minRight.y) limits
      let x ← coordinate16 default.x
      let y ← coordinate16 default.y
      return .variable x y xVariation yVariation

end Anchor

end Kashida
