/-! Ranges of characters as rows of byte ranges: the characters of a row are those whose bytes lie, one by one, in the
ranges of the row. -/
namespace Kashida

/-- The bytes from `low` to `high`. -/
structure ByteRange where
  low : UInt8
  high : UInt8
deriving DecidableEq

namespace ByteRange

/-- Code points that are written with equally many bytes. Surrogates are left out. -/
def planes : List (Nat × Nat) := [(0, 0x7f), (0x80, 0x7ff), (0x800, 0xd7ff), (0xe000, 0xffff), (0x10000, 0x10ffff)]

/-- Cuts code points where bytes other than the first differ, so that the last byte of each piece, the last two, or the
last three run through all their values. `bits` is how many bits the bytes looked at so far take. -/
def cut : (levels bits : Nat) → Nat × Nat → List (Nat × Nat)
  | 0, _, range => [range]
  | levels + 1, bits, (low, high) =>
      let block := Nat.pow 2 bits
      if low / block = high / block then [(low, high)]
      else
        let firstEnd := (low / block + 1) * block - 1
        let lastStart := high / block * block
        let first := if low % block = 0 then [] else [(low, firstEnd)]
        let last := if high % block = block - 1 then [] else [(lastStart, high)]
        let start := if low % block = 0 then low else firstEnd + 1
        let stop := if high % block = block - 1 then high + 1 else lastStart
        first ++ (if start < stop then cut levels (bits + 6) (start, stop - 1) else []) ++ last

/-- Code points between two that differ only in bytes that run through all their values. -/
def row (low high : Nat) : List ByteRange :=
  List.zipWith ByteRange.mk (String.utf8EncodeChar (Char.ofNat low)) (String.utf8EncodeChar (Char.ofNat high))

/-- The rows of a range of code points, in ascending order. -/
def rows (range : Nat × Nat) : List (List ByteRange) :=
  planes.flatMap fun plane =>
    let low := max range.1 plane.1
    let high := min range.2 plane.2
    if high < low then []
    else if high < 0x80 then [row low high]
    else (cut 3 6 (low, high)).map fun (low, high) => row low high

end ByteRange

end Kashida
