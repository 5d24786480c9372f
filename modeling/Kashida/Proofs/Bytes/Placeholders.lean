import Kashida.Proofs.Bytes.Reading
import Kashida.Proofs.Bytes.Reserving
import Kashida.Substitution.Ligature
import Kashida.Substitution.Multiple

/-! Offsets that are reserved first and filled when their blocks are reached. They come out as in the layout that is
computed block by block, and writing fails where that fails, with the same error. -/
namespace Kashida

open BufferPart (reservations)

/-- A writer adds an encoding at the end of any buffer, or fails like the encoding. -/
def Appends (write : α → Buffer → Except WriteError Buffer) (encode : α → Except WriteError (List UInt8)) : Prop :=
  ∀ item buffer, write item buffer = (encode item).map buffer.append

namespace Buffer

def appending (encode : α → Except WriteError (List UInt8)) (item : α) (buffer : Buffer) : Except WriteError Buffer :=
  (encode item).map buffer.append

theorem appends_appending (encode : α → Except WriteError (List UInt8)) : Appends (appending encode) encode :=
  fun _ _ => rfl

/-- Fills a reserved offset with the distance from `origin` to the end. -/
def fillOffset (buffer : Buffer) (field : Reservation) (origin : Nat) : Except WriteError Buffer := do
  let offset ← buffer.offsetFrom origin
  let (outcome, buffer) := buffer.fill field [.bytes (word16 offset)]
  outcome
  return buffer

/-- Writes blocks one after the other. The offset of each is filled before it is written. -/
def writeBlocks (write : α → Buffer → Except WriteError Buffer) (origin : Nat) :
    List (Reservation × α) → Buffer → Except WriteError Buffer
  | [], buffer => .ok buffer
  | (field, item) :: rest, buffer => do
      let buffer ← buffer.fillOffset field origin
      let buffer ← write item buffer
      writeBlocks write origin rest buffer

theorem reserveMany_eq (bytes : List UInt8) (size count : Nat) : reserveMany ⟨bytes⟩ size count =
    (reservations bytes.length (List.replicate count (.field size)), ⟨bytes ++ List.replicate (count * size) 0⟩) := by
  rw [BufferPart.reservations_replicate]
  rfl

theorem fillOffset_at {front back : List UInt8} {origin : Nat} (inside : origin ≤ front.length) :
    fillOffset ⟨front ++ [0, 0] ++ back⟩ ⟨front.length, 2⟩ origin =
      (offset16 (front.length + 2 + back.length - origin)).map fun offset => ⟨front ++ word16 offset ++ back⟩ := by
  have size : (Buffer.mk (front ++ [0, 0] ++ back)).size = front.length + 2 + back.length := by
    simp only [Buffer.size, List.length_append, List.length_cons, List.length_nil]
  rw [fillOffset, offsetFrom, size, if_pos (by omega)]
  cases offset16 (front.length + 2 + back.length - origin) with
  | error error => rfl
  | ok offset =>
    have filled : fill ⟨front ++ [0, 0] ++ back⟩ ⟨front.length, 2⟩ [.bytes (word16 offset)] =
        (.ok (), ⟨front ++ word16 offset ++ back⟩) := fill_at front [0, 0] back rfl rfl _
    simp only [bind, Except.bind, filled]
    rfl

/-- Blocks behind their reserved offsets are placed as `placeBlocks` has it. -/
theorem writeBlocks_reserved {write : α → Buffer → Except WriteError Buffer}
    {encode : α → Except WriteError (List UInt8)} (appends : Appends write encode) (items : List α)
    (front middle : List UInt8) {origin : Nat} (inside : origin ≤ front.length) :
    writeBlocks write origin ((reservations front.length (List.replicate items.length (.field 2))).zip items)
        ⟨front ++ List.replicate (items.length * 2) 0 ++ middle⟩ =
      (placeBlocks encode (front.length + items.length * 2 + middle.length - origin) items).map fun placed =>
        ⟨front ++ words16 placed.1 ++ middle ++ placed.2⟩ := by
  induction items generalizing front middle with
  | nil => simp [writeBlocks, placeBlocks, Except.map, words16]
  | cons item items ih =>
    have zeros : front ++ List.replicate ((item :: items).length * 2) 0 ++ middle =
        front ++ [0, 0] ++ (List.replicate (items.length * 2) 0 ++ middle) := by
      rw [List.length_cons, Nat.succ_mul, Nat.add_comm, ← List.replicate_append_replicate]
      simp only [List.append_assoc]
      rfl
    have distance : front.length + 2 + (List.replicate (items.length * 2) (0 : UInt8) ++ middle).length - origin =
        front.length + (items.length + 1) * 2 + middle.length - origin := by
      rw [List.length_append, List.length_replicate]
      omega
    rw [zeros, List.length_cons, List.replicate_succ, reservations, List.zip_cons_cons, writeBlocks,
      fillOffset_at inside, distance, placeBlocks]
    cases offset16 (front.length + (items.length + 1) * 2 + middle.length - origin) with
    | error error => rfl
    | ok offset =>
      simp only [Except.map, bind, Except.bind, appends item]
      cases encode item with
      | error error => rfl
      | ok block =>
        -- What follows sees the filled offset as part of the front and the block as part of the middle.
        have rest := ih (front ++ word16 offset) (middle ++ block) (by rw [List.length_append]; omega)
        have start : (front ++ word16 offset).length = front.length + 2 := List.length_append
        have next : front.length + 2 + items.length * 2 + (middle ++ block).length - origin =
            front.length + (items.length + 1) * 2 + middle.length - origin + block.length := by
          rw [List.length_append]
          omega
        rw [start, next] at rest
        simp only [Buffer.append, List.append_assoc] at rest ⊢
        rw [rest]
        cases placeBlocks encode _ items with
        | error error => rfl
        | ok placed => simp [Except.map, pure, Except.pure, words16]

/-- Writes a table of blocks that are found through a coverage. The coverage stands behind the offsets of the blocks,
and its own offset before them. -/
def writeCovered (coverage : Coverage) (write : α → Buffer → Except WriteError Buffer) (items : List α) :
    Except WriteError Buffer := do
  let (coverageField, buffer) := (Buffer.mk (word16 1)).reserve 2
  let count ← count16 items.length
  let (fields, buffer) := (buffer.append (word16 count)).reserveMany 2 items.length
  let buffer ← buffer.fillOffset coverageField 0
  let (outcome, buffer) := coverage.write buffer
  outcome
  writeBlocks write 0 (fields.zip items) buffer

/-- The offset of a coverage that stands behind the offsets of so many blocks. -/
theorem fillOffset_coverage (count : UInt16) (blocks : Nat) :
    fillOffset ⟨word16 1 ++ [0, 0] ++ (word16 count ++ List.replicate (blocks * 2) 0)⟩
        ((Buffer.mk (word16 1)).reserve 2).1 0 =
      (offset16 (6 + 2 * blocks)).map fun offset =>
        ⟨word16 1 ++ word16 offset ++ (word16 count ++ List.replicate (blocks * 2) 0)⟩ := by
  have behind : (word16 1).length + 2 + (word16 count ++ List.replicate (blocks * 2) (0 : UInt8)).length - 0 =
      6 + 2 * blocks := by
    rw [List.length_append, List.length_replicate, word16_length, word16_length]
    omega
  rw [← behind]
  exact fillOffset_at (Nat.zero_le _)

theorem writeCovered_eq {write : α → Buffer → Except WriteError Buffer} {encode : α → Except WriteError (List UInt8)}
    (appends : Appends write encode) (coverage : Coverage) (items : List α) :
    (writeCovered coverage write items).map Buffer.bytes = (do
      let count ← count16 items.length
      let offset ← offset16 (6 + 2 * items.length)
      let covered ← coverage.encode
      let (offsets, blocks) ← placeBlocks encode (6 + 2 * items.length + covered.length) items
      return word16 1 ++ word16 offset ++ word16 count ++ words16 offsets ++ covered ++ blocks) := by
  rw [writeCovered]
  cases count16 items.length with
  | error error => rfl
  | ok count =>
    have reserved : (((Buffer.mk (word16 1)).reserve 2).2.append (word16 count)).reserveMany 2 items.length =
        (reservations 6 (List.replicate items.length (.field 2)),
          ⟨word16 1 ++ [0, 0] ++ (word16 count ++ List.replicate (items.length * 2) 0)⟩) :=
      reserveMany_eq (word16 1 ++ [0, 0] ++ word16 count) 2 items.length
    simp only [bind, Except.bind, reserved, fillOffset_coverage]
    cases offset16 (6 + 2 * items.length) with
    | error error => rfl
    | ok offset =>
      cases encoded : coverage.encode with
      | error error => cases error <;> simp [Coverage.write, encoded, Except.map]
      | ok covered =>
        have placed := writeBlocks_reserved appends items (word16 1 ++ word16 offset ++ word16 count) covered
          (Nat.zero_le _)
        have header : (word16 1 ++ word16 offset ++ word16 count).length = 6 := rfl
        rw [header, Nat.sub_zero, Nat.mul_comm items.length] at placed
        simp only [Except.map, Coverage.write, encoded, Buffer.append, List.append_assoc] at placed ⊢
        rw [Nat.mul_comm items.length, placed]
        cases placeBlocks encode (6 + 2 * items.length + covered.length) items <;> rfl

end Buffer

/-- A set of ligatures, with its offsets counted from its start. -/
def LigatureSubstitution.writeSet (ligatures : List Ligature) (buffer : Buffer) : Except WriteError Buffer := do
  let start := buffer.size
  let count ← count16 ligatures.length
  let (fields, buffer) := (buffer.append (word16 count)).reserveMany 2 ligatures.length
  Buffer.writeBlocks (Buffer.appending encodeLigature) start (fields.zip ligatures) buffer

theorem LigatureSubstitution.appends_writeSet : Appends writeSet encodeSet := by
  intro ligatures buffer
  rw [writeSet, encodeSet]
  cases count16 ligatures.length with
  | error error => rfl
  | ok count =>
    have inside : buffer.size ≤ (buffer.bytes ++ word16 count).length := by
      rw [List.length_append]
      exact Nat.le_add_right _ _
    have placed := Buffer.writeBlocks_reserved (Buffer.appends_appending encodeLigature) ligatures
      (buffer.bytes ++ word16 count) [] inside
    have distance : (buffer.bytes ++ word16 count).length + ligatures.length * 2 + 0 - buffer.size =
        2 + 2 * ligatures.length := by
      rw [List.length_append, word16_length, Buffer.size]
      omega
    rw [List.length_nil, distance, List.append_nil] at placed
    simp only [bind, Except.bind, Buffer.append, Buffer.reserveMany_eq, placed]
    cases placeBlocks encodeLigature (2 + 2 * ligatures.length) ligatures with
    | error error => rfl
    | ok placed => simp [Except.map, pure, Except.pure, Buffer.append]

/-- The encodings are what reserving and filling the offsets writes. -/
theorem MultipleSubstitution.encode_eq_writeCovered (table : MultipleSubstitution) :
    table.encode = (Buffer.writeCovered (Coverage.ofList (table.sequences.toList.map Prod.fst))
      (Buffer.appending encodeSequence) (table.sequences.toList.map Prod.snd)).map Buffer.bytes := by
  rw [Buffer.writeCovered_eq (Buffer.appends_appending encodeSequence), List.length_map]
  rfl

theorem LigatureSubstitution.encode_eq_writeCovered (table : LigatureSubstitution) :
    table.encode =
      (Buffer.writeCovered (Coverage.ofSet table.firsts) writeSet (table.sets.map Prod.snd)).map Buffer.bytes := by
  rw [Buffer.writeCovered_eq appends_writeSet, List.length_map]
  rfl

end Kashida
