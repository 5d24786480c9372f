import Kashida.Error
import Kashida.Number.FixedPoint

/-! Big-endian integers of 16 and 32 bits, and the checks that a number fits its field. -/
namespace Kashida

def word16 (x : UInt16) : List UInt8 := [.ofNat (x.toNat / 256), .ofNat x.toNat]

def word32 (x : UInt32) : List UInt8 :=
  [.ofNat (x.toNat / 16777216), .ofNat (x.toNat / 65536), .ofNat (x.toNat / 256), .ofNat x.toNat]

/-- Signed integers are written in two's complement. -/
def int16 (x : Int16) : List UInt8 := word16 x.toUInt16

def int32 (x : Int32) : List UInt8 := word32 x.toUInt32

def words16 (xs : List UInt16) : List UInt8 := xs.flatMap word16

/-- The kinds of integer fields. -/
inductive ScalarKind where
  | u16
  | i16
  | u32
  | i32
deriving DecidableEq

/-- An integer together with the field it is written in. -/
inductive Scalar where
  | u16 (value : UInt16)
  | i16 (value : Int16)
  | u32 (value : UInt32)
  | i32 (value : Int32)
deriving DecidableEq

def ScalarKind.size : ScalarKind → Nat
  | .u16 | .i16 => 2
  | .u32 | .i32 => 4

namespace Scalar

def kind : Scalar → ScalarKind
  | .u16 _ => .u16
  | .i16 _ => .i16
  | .u32 _ => .u32
  | .i32 _ => .i32

def bytes : Scalar → List UInt8
  | .u16 x => word16 x
  | .i16 x => int16 x
  | .u32 x => word32 x
  | .i32 x => int32 x

def toInt : Scalar → Int
  | .u16 x => x.toNat
  | .i16 x => x.toInt
  | .u32 x => x.toNat
  | .i32 x => x.toInt

end Scalar

def word16At (a b : UInt8) : UInt16 := .ofNat (a.toNat * 256 + b.toNat)

def word32At (a b c d : UInt8) : UInt32 :=
  .ofNat (((a.toNat * 256 + b.toNat) * 256 + c.toNat) * 256 + d.toNat)

/-- The integer that exactly these bytes hold. -/
def ScalarKind.ofBytes? : ScalarKind → List UInt8 → Option Scalar
  | .u16, [a, b] => some (.u16 (word16At a b))
  | .i16, [a, b] => some (.i16 (word16At a b).toInt16)
  | .u32, [a, b, c, d] => some (.u32 (word32At a b c d))
  | .i32, [a, b, c, d] => some (.i32 (word32At a b c d).toInt32)
  | _, _ => none

/-- A count or index in 16 bits. -/
def count16 (n : Nat) : Except WriteError UInt16 :=
  if n ≤ 65535 then .ok (.ofNat n) else .error .badValue

/-- An offset in 16 bits. -/
def offset16 (n : Nat) : Except WriteError UInt16 :=
  if n ≤ 65535 then .ok (.ofNat n) else .error .offsetOverflow

/-- A position in 32 bits. -/
def position32 (n : Nat) : Except WriteError UInt32 :=
  if n ≤ 4294967295 then .ok (.ofNat n) else .error .badValue

/-- A coordinate or delta in 16 bits. -/
def coordinate16 (n : Int) : Except WriteError Int16 :=
  if -32768 ≤ n ∧ n ≤ 32767 then .ok (.ofInt n) else .error .badValue

def Fixed.ofRounded (x : Rounded) : Except WriteError Fixed :=
  match Fixed.ofRounded? x with
  | some value => .ok value
  | none => .error .badValue

def F2Dot14.ofRounded (x : Rounded) : Except WriteError F2Dot14 :=
  match F2Dot14.ofRounded? x with
  | some value => .ok value
  | none => .error .badValue

def Fixed.bytes (x : Fixed) : List UInt8 := int32 x.raw

def F2Dot14.bytes (x : F2Dot14) : List UInt8 := int16 x.raw

end Kashida
