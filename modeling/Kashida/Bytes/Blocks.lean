import Kashida.Bytes.Scalar

/-! Blocks that follow one another and are found by 16-bit offsets. -/
namespace Kashida

/-- The offsets of blocks from `start` on, and the blocks themselves. An offset is settled before its block is
encoded. -/
def placeBlocks (encode : α → Except WriteError (List UInt8)) (start : Nat) :
    List α → Except WriteError (List UInt16 × List UInt8)
  | [] => .ok ([], [])
  | item :: items => do
      let offset ← offset16 start
      let block ← encode item
      let (offsets, blocks) ← placeBlocks encode (start + block.length) items
      return (offset :: offsets, block ++ blocks)

end Kashida
