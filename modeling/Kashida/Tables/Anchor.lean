import Kashida.Bytes.Buffer
import Kashida.Bytes.Cursor
import Kashida.Glyph.Basic

/-! Anchor tables: a point, alone or with a delta-set index for each coordinate. -/
namespace Kashida

/-- The place of a row of deltas in the variation store. -/
structure DeltaSetIndex where
  outer : UInt16
  inner : UInt16
deriving DecidableEq

inductive Anchor where
  | fixed (x y : Int16)
  | variable (x y : Int16) (xVariation yVariation : DeltaSetIndex)
deriving DecidableEq

namespace Anchor

/-- A fixed anchor, if both coordinates have 16 bits. -/
def ofPoint (point : Point) : Except WriteError Anchor := do
  let x ← coordinate16 point.x
  let y ← coordinate16 point.y
  return .fixed x y

def point : Anchor → Point
  | .fixed x y => ⟨x.toInt, y.toInt⟩
  | .variable x y _ _ => ⟨x.toInt, y.toInt⟩

/-- Distances from the start of a variable anchor to its two variation indexes. -/
def xDeviceOffset : UInt16 := 10

def yDeviceOffset : UInt16 := 16

def variationFormat : UInt16 := 0x8000

def variationBytes (index : DeltaSetIndex) : List UInt8 :=
  word16 index.outer ++ word16 index.inner ++ word16 variationFormat

def bytes : Anchor → List UInt8
  | .fixed x y => word16 1 ++ int16 x ++ int16 y
  | .variable x y xVariation yVariation =>
      word16 3 ++ int16 x ++ int16 y ++ word16 xDeviceOffset ++ word16 yDeviceOffset ++
        variationBytes xVariation ++ variationBytes yVariation

def size : Anchor → Nat
  | .fixed .. => 6
  | .variable .. => 22

def readVariation : ReadM ParseError DeltaSetIndex := do
  let outer ← Cursor.step Cursor.word16
  let inner ← Cursor.step Cursor.word16
  let format ← Cursor.step Cursor.word16
  Cursor.check (format == variationFormat)
  return ⟨outer, inner⟩

def read : ReadM ParseError Anchor := do
  let format ← Cursor.step Cursor.word16
  if format = 1 then
    let x ← Cursor.step Cursor.int16
    let y ← Cursor.step Cursor.int16
    return .fixed x y
  else if format = 3 then
    let x ← Cursor.step Cursor.int16
    let y ← Cursor.step Cursor.int16
    let xDevice ← Cursor.step Cursor.word16
    let yDevice ← Cursor.step Cursor.word16
    Cursor.check (xDevice == xDeviceOffset && yDevice == yDeviceOffset)
    let xVariation ← readVariation
    let yVariation ← readVariation
    return .variable x y xVariation yVariation
  else throw .badVersion

end Anchor

end Kashida
