import Kashida.Variation.DeltaSets

/-! The variation store: a table of regions and the groups of delta rows, each found by its position. -/
namespace Kashida

namespace Region

/-- Start, peak and end of an axis: from zero to the peak, or from the peak to zero. -/
def span (peak : F2Dot14) : List UInt8 :=
  let start : F2Dot14 := if peak.raw < 0 then peak else ⟨0⟩
  let stop : F2Dot14 := if 0 < peak.raw then peak else ⟨0⟩
  start.bytes ++ peak.bytes ++ stop.bytes

/-- Both axes; the one that the region leaves alone is all zeros. -/
def bytes (region : Region) : List UInt8 :=
  match region.axis with
  | .left => span region.peak ++ span ⟨0⟩
  | .right => span ⟨0⟩ ++ span region.peak

end Region

namespace DeltaGroup

/-- Encoded size. -/
def byteSize (group : DeltaGroup) : Nat :=
  6 + 2 * group.regions.length + 2 * group.regions.length * group.rows.size

/-- All deltas are written in 16 bits, so the count of wide deltas is that of the regions. -/
def encode (group : DeltaGroup) : Except WriteError (List UInt8) := do
  let regionCount ← count16 group.regions.length
  let rowCount ← count16 group.rows.size
  return word16 rowCount ++ word16 regionCount ++ word16 regionCount ++ words16 group.regions ++
    group.rows.toList.flatMap fun row => row.flatMap int16

end DeltaGroup

namespace DeltaSets

def axisCount : UInt16 := 2

/-- Positions of blocks of these sizes from `start` on. -/
def positions (start : Nat) : List Nat → List Nat
  | [] => []
  | size :: sizes => start :: positions (start + size) sizes

def regionBytes (sets : DeltaSets) : List UInt8 := sets.regions.flatMap Region.bytes

/-- The store: header, region table, groups. -/
def encode (sets : DeltaSets) : Except WriteError (List UInt8) := do
  let groups := sets.groups.toList
  let groupCount ← count16 groups.length
  let regionsAt := 8 + 4 * groups.length
  let regionPosition ← position32 regionsAt
  let regionCount ← count16 sets.regions.length
  let groupsAt := positions (regionsAt + 4 + 12 * sets.regions.length) (groups.map DeltaGroup.byteSize)
  let groupPositions ← groupsAt.mapM position32
  let groupBytes ← groups.mapM DeltaGroup.encode
  return word16 1 ++ word32 regionPosition ++ word16 groupCount ++ groupPositions.flatMap word32 ++
    word16 axisCount ++ word16 regionCount ++ sets.regionBytes ++ groupBytes.flatten

end DeltaSets

end Kashida
