import Kashida.Number.Binary64

/-! Signed fixed-point numbers of the font format: 16.16 in 32 bits and 2.14 in 16 bits. -/
namespace Kashida

/-- A number in units of 2^-16. -/
structure Fixed where
  raw : Int32
deriving DecidableEq

/-- A number in units of 2^-14. -/
structure F2Dot14 where
  raw : Int16
deriving DecidableEq

namespace Fixed

/-- The nearest multiple of 2^-16, halves away from zero, if the raw value has 32 bits. -/
def ofRounded? (x : Rounded) : Option Fixed :=
  match x.scaled? 16 with
  | some raw => if Int32.minValue.toInt ≤ raw ∧ raw ≤ Int32.maxValue.toInt then some ⟨.ofInt raw⟩ else none
  | none => none

def toRounded (x : Fixed) : Rounded := Binary64.ofScaled x.raw.toInt 16

end Fixed

namespace F2Dot14

/-- The nearest multiple of 2^-14, halves away from zero, if the raw value has 16 bits. -/
def ofRounded? (x : Rounded) : Option F2Dot14 :=
  match x.scaled? 14 with
  | some raw => if Int16.minValue.toInt ≤ raw ∧ raw ≤ Int16.maxValue.toInt then some ⟨.ofInt raw⟩ else none
  | none => none

def toRounded (x : F2Dot14) : Rounded := Binary64.ofScaled x.raw.toInt 14

end F2Dot14

end Kashida
