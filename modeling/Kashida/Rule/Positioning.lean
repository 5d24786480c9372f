import Kashida.Glyph.Basic
import Kashida.Json.Decoder
import Kashida.Tables.ValueRecord

/-! Positioning rules and the parameter blocks that adjust them, by class or glyph name and in document order.

A parameter block is written the way it is read; maps with nothing in them are left out. -/
namespace Kashida

/-- A coordinate of 32 bits. -/
def Json.toCoordinate? : Json → Option Int := Json.toIntIn? Int32.minValue.toInt Int32.maxValue.toInt

def Point.ofJson? : Json → Option Point
  | .array [x, y] => do return ⟨← x.toCoordinate?, ← y.toCoordinate?⟩
  | _ => none

def Point.toJson (point : Point) : Json := .array [Json.ofInt point.x, Json.ofInt point.y]

def ValueRecord.ofJson? : Json → Option ValueRecord
  | .array [xPlacement, yPlacement, xAdvance, yAdvance] => do
      return ⟨← xPlacement.toInt16?, ← yPlacement.toInt16?, ← xAdvance.toInt16?, ← yAdvance.toInt16?⟩
  | _ => none

def ValueRecord.toJson (record : ValueRecord) : Json :=
  .array ([record.xPlacement, record.yPlacement, record.xAdvance, record.yAdvance].map fun x => Json.ofInt x.toInt)

/-- Values of glyphs by name. -/
abbrev ByName (α : Type) := List (String × α)

def ByName.toJson (encode : α → Json) (values : ByName α) : Json :=
  .object (values.map fun (name, value) => (name, encode value))

/-- A member for each map that holds something. -/
def Json.ofNonempty (maps : List (String × ByName Point)) : Json :=
  .object ((maps.filter fun (_, map) => !map.isEmpty).map fun (name, map) => (name, map.toJson Point.toJson))

/-- A value record for each class. -/
abbrev AdjustmentRule := ByName ValueRecord

def AdjustmentRule.ofJson? : Json → Option AdjustmentRule := Json.toMap? ValueRecord.ofJson?

/-- What is added to the records of single glyphs. -/
structure AdjustmentParameters where
  records : ByName ValueRecord := []
deriving DecidableEq

namespace AdjustmentParameters

def ofJson? (json : Json) : Option AdjustmentParameters := do
  let [records] ← json.record? ["parameters"] | none
  return ⟨← Json.withDefault? [] (Json.toMap? ValueRecord.ofJson?) records⟩

def toJson (parameters : AdjustmentParameters) : Json :=
  if parameters.records.isEmpty then .object []
  else .object [("parameters", parameters.records.toJson ValueRecord.toJson)]

end AdjustmentParameters

/-- An anchor given as a point, or by its name in the shapes of the glyph. -/
inductive AnchorSpec where
  | point (point : Point)
  | name (name : String)
deriving DecidableEq

def AnchorSpec.ofJson? : Json → Option AnchorSpec
  | .string anchor => some (.name anchor)
  | json => (Point.ofJson? json).map .point

/-- Where a glyph is entered and left. -/
structure CursiveEnds where
  entry : Option AnchorSpec
  exit : Option AnchorSpec
deriving DecidableEq

def CursiveEnds.ofJson? (json : Json) : Option CursiveEnds := do
  let [entry, exit] ← json.record? ["entry", "exit"] | none
  let anchor := Json.withDefault? none (Json.toOption? AnchorSpec.ofJson?)
  return ⟨← anchor entry, ← anchor exit⟩

/-- Entry and exit for each class. -/
abbrev CursiveRule := ByName CursiveEnds

def CursiveRule.ofJson? (json : Json) : Option CursiveRule := do
  let [anchors] ← json.record? ["anchors"] | none
  Json.withDefault? [] (Json.toMap? CursiveEnds.ofJson?) anchors

/-- A map of points, empty if it is left out. -/
def Json.points? : Option Json → Option (ByName Point) := Json.withDefault? [] (Json.toMap? Point.ofJson?)

/-- What is added to the entries and exits of single glyphs. -/
structure CursiveParameters where
  entry : ByName Point := []
  exit : ByName Point := []
deriving DecidableEq

namespace CursiveParameters

def ofJson? (json : Json) : Option CursiveParameters := do
  let [entry, exit] ← json.record? ["entryParameters", "exitParameters"] | none
  return ⟨← Json.points? entry, ← Json.points? exit⟩

def toJson (parameters : CursiveParameters) : Json :=
  Json.ofNonempty [("entryParameters", parameters.entry), ("exitParameters", parameters.exit)]

end CursiveParameters

/-- One name, or a list of names. -/
def Json.toNames? : Json → Option (List String)
  | .string name => some [name]
  | json => json.toList? Json.toString?

/-- How one side of an attachment finds its anchors. -/
structure SideRule where
  function : Option String
  adjustments : ByName Point
  anchors : ByName Point
deriving DecidableEq

structure MarkClassRule where
  marks : List String
  base : SideRule
  mark : SideRule
deriving DecidableEq

def MarkClassRule.ofJson? (json : Json) : Option MarkClassRule := do
  let [marks, baseFunction, markFunction, baseAdjustments, markAdjustments, baseAnchors, markAnchors] ← json.record?
    ["mark", "basefunction", "markfunction", "baseparameters", "markparameters", "baseanchors", "markanchors"] | none
  let function := Json.withDefault? none (Json.toOption? Json.toString?)
  return ⟨← Json.required? Json.toNames? marks,
    ⟨← function baseFunction, ← Json.points? baseAdjustments, ← Json.points? baseAnchors⟩,
    ⟨← function markFunction, ← Json.points? markAdjustments, ← Json.points? markAnchors⟩⟩

/-- Marks attach to bases through the anchors of their class. -/
structure MarkRule where
  bases : List String
  classes : ByName MarkClassRule
deriving DecidableEq

def MarkRule.ofJson? (json : Json) : Option MarkRule := do
  let [bases, classes] ← json.record? ["base", "classes"] | none
  return ⟨← Json.required? Json.toNames? bases, ← Json.required? (Json.toMap? MarkClassRule.ofJson?) classes⟩

/-- What is added to the anchors of one mark class. -/
structure MarkClassParameters where
  base : ByName Point := []
  mark : ByName Point := []
deriving DecidableEq

namespace MarkClassParameters

def ofJson? (json : Json) : Option MarkClassParameters := do
  let [base, mark] ← json.record? ["baseparameters", "markparameters"] | none
  return ⟨← Json.points? base, ← Json.points? mark⟩

def toJson (parameters : MarkClassParameters) : Json :=
  Json.ofNonempty [("baseparameters", parameters.base), ("markparameters", parameters.mark)]

end MarkClassParameters

/-- Parameters by class name. -/
abbrev MarkParameters := ByName MarkClassParameters

def MarkParameters.ofJson? : Json → Option MarkParameters := Json.toMap? MarkClassParameters.ofJson?

def MarkParameters.toJson (parameters : MarkParameters) : Json := ByName.toJson MarkClassParameters.toJson parameters

end Kashida
