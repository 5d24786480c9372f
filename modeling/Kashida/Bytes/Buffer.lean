import Kashida.Bytes.Scalar

/-! A growing buffer with fields that are reserved now and filled later. A field holds zeros until it is filled, and a
filling touches nothing outside its field. -/
namespace Kashida

/-- The bytes written so far. -/
structure Buffer where
  bytes : List UInt8 := []
deriving DecidableEq

/-- A field of a buffer, by its place. -/
structure Reservation where
  start : Nat
  size : Nat
deriving DecidableEq

/-- What a value writes, piece by piece. -/
inductive Emission where
  | bytes (content : List UInt8)
  | zeros (count : Nat)
  /-- Reserves a field inside the one being filled and then tries to fill that. -/
  | nested (size : Nat)
deriving DecidableEq

namespace Buffer

def size (buffer : Buffer) : Nat := buffer.bytes.length

def append (buffer : Buffer) (content : List UInt8) : Buffer := ⟨buffer.bytes ++ content⟩

def appendZeros (buffer : Buffer) (count : Nat) : Buffer := buffer.append (List.replicate count 0)

/-- Reserves a field at the end. -/
def reserve (buffer : Buffer) (size : Nat) : Reservation × Buffer :=
  (⟨buffer.size, size⟩, buffer.appendZeros size)

/-- Reserves fields of one size, one after the other. -/
def reserveMany (buffer : Buffer) (size count : Nat) : List Reservation × Buffer :=
  let start := buffer.size
  ((List.range count).map fun i => ⟨start + i * size, size⟩, buffer.appendZeros (count * size))

/-- Writes pieces over the content of a field. A piece that does not fit is refused, and so is a field inside the field;
what was written before stays. All of the field must be covered. -/
def overwrite : List Emission → List UInt8 → Except WriteError Unit × List UInt8
  | [], [] => (.ok (), [])
  | [], rest => (.error .sizeMismatch, rest)
  | .bytes content :: pieces, rest =>
      if content.length ≤ rest.length then
        let (outcome, tail) := overwrite pieces (rest.drop content.length)
        (outcome, content ++ tail)
      else (.error .sizeMismatch, rest)
  | .zeros count :: pieces, rest =>
      if count ≤ rest.length then
        let (outcome, tail) := overwrite pieces (rest.drop count)
        (outcome, List.replicate count 0 ++ tail)
      else (.error .sizeMismatch, rest)
  | .nested size :: _, rest =>
      if size ≤ rest.length then (.error .sizeMismatch, List.replicate size 0 ++ rest.drop size)
      else (.error .sizeMismatch, rest)

/-- Fills a reserved field. -/
def fill (buffer : Buffer) (field : Reservation) (pieces : List Emission) : Except WriteError Unit × Buffer :=
  let behind := buffer.bytes.drop field.start
  let (outcome, content) := overwrite pieces (behind.take field.size)
  (outcome, ⟨buffer.bytes.take field.start ++ content ++ behind.drop field.size⟩)

/-- The distance from `start` to the end as a 16-bit offset. -/
def offsetFrom (buffer : Buffer) (start : Nat) : Except WriteError UInt16 :=
  if start ≤ buffer.size then offset16 (buffer.size - start) else .error .badValue

end Buffer

/-- Offsets of blocks that follow one another. -/
structure OffsetCounter where
  next : Nat
deriving DecidableEq

namespace OffsetCounter

/-- The offset of the next free byte. -/
def offset (counter : OffsetCounter) : Except WriteError UInt16 := offset16 counter.next

/-- The offset of a block, and the counter behind it. -/
def advance (counter : OffsetCounter) (size : Nat) : Except WriteError (UInt16 × OffsetCounter) := do
  let offset ← counter.offset
  return (offset, ⟨counter.next + size⟩)

/-- The offsets of blocks of these sizes, and the counter behind them. -/
def advanceAll (counter : OffsetCounter) : List Nat → Except WriteError (List UInt16 × OffsetCounter)
  | [] => .ok ([], counter)
  | size :: sizes => do
      let (offset, counter) ← counter.advance size
      let (offsets, counter) ← counter.advanceAll sizes
      return (offset :: offsets, counter)

end OffsetCounter

end Kashida
