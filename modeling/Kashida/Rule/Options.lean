import Kashida.Json.Decoder
import Kashida.Variation.Limits

/-! Options of a compilation, and elongation limits as documents write them. -/
namespace Kashida

structure CompileOptions where
  /-- Anchors of glyphs with limits vary with the elongation. -/
  variableAnchors : Bool := true
  /-- Elongation substitutions keep their values; otherwise each is a plain substitution by a fitting shape. -/
  extended : Bool := false
  /-- Elongations are written as fractions of their bounds. -/
  normalized : Bool := true
deriving DecidableEq

def CompileOptions.ofJson? (json : Json) : Option CompileOptions := do
  let [variableAnchors, extended, normalized] ← json.record?
    ["variable", "extended", "useNormalizedAxisValues"] | none
  return ⟨← Json.withDefault? true Json.toBool? variableAnchors, ← Json.withDefault? false Json.toBool? extended,
    ← Json.withDefault? true Json.toBool? normalized⟩

def ElongationLimits.ofJson? (json : Json) : Option ElongationLimits := do
  let [minLeft, maxLeft, minRight, maxRight] ← json.record? ["minLeft", "maxLeft", "minRight", "maxRight"] | none
  return ⟨← Json.required? Json.toBinary64? minLeft, ← Json.required? Json.toBinary64? maxLeft,
    ← Json.required? Json.toBinary64? minRight, ← Json.required? Json.toBinary64? maxRight⟩

end Kashida
