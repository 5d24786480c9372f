import Kashida.Bytes.Scalar

/-! Value records: placement and advance adjustments of a glyph. -/
namespace Kashida

structure ValueRecord where
  xPlacement : Int16
  yPlacement : Int16
  xAdvance : Int16
  yAdvance : Int16
deriving DecidableEq

namespace ValueRecord

def zero : ValueRecord := ⟨0, 0, 0, 0⟩

def isZero (record : ValueRecord) : Bool := record == zero

/-- The sum field by field, if every field of it has 16 bits. -/
def add (a b : ValueRecord) : Except WriteError ValueRecord := do
  let xPlacement ← coordinate16 (a.xPlacement.toInt + b.xPlacement.toInt)
  let yPlacement ← coordinate16 (a.yPlacement.toInt + b.yPlacement.toInt)
  let xAdvance ← coordinate16 (a.xAdvance.toInt + b.xAdvance.toInt)
  let yAdvance ← coordinate16 (a.yAdvance.toInt + b.yAdvance.toInt)
  return ⟨xPlacement, yPlacement, xAdvance, yAdvance⟩

def bytes (record : ValueRecord) : List UInt8 :=
  int16 record.xPlacement ++ int16 record.yPlacement ++ int16 record.xAdvance ++ int16 record.yAdvance

end ValueRecord

end Kashida
