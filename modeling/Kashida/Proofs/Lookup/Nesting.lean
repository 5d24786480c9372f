import Kashida.Compiler
import Kashida.Proofs.Lookup.Encoding

/-! Lookup lists and lookups read back. Both are a header with offsets and then the blocks that these lead to, the
lookups of a list and the subtables of a lookup. The blocks fill the data behind the header and do not overlap, so a
reader that knows nothing of their contents can cut them out by the offsets alone. -/
namespace Kashida

open DeltaSets (positions)

/-- The data cut at its offsets: each slice ends where the next one starts, and the last where the data ends. -/
def slices (data : List UInt8) : List UInt16 → List (List UInt8)
  | [] => []
  | [offset] => [data.drop offset.toNat]
  | offset :: next :: rest =>
      (data.drop offset.toNat).take (next.toNat - offset.toNat) :: slices data (next :: rest)

/-- Blocks that follow one another are cut out again. -/
theorem slices_of_placed (front : List UInt8) {blocks : List (List UInt8)} {offsets : List UInt16}
    (placed : List.Forall₂ (fun position offset => offset16 position = .ok offset)
      (positions front.length (blocks.map List.length)) offsets) :
    slices (front ++ blocks.flatten) offsets = blocks := by
  induction blocks generalizing front offsets with
  | nil =>
    cases placed
    rfl
  | cons block blocks ih =>
    cases placed with
    | @cons _ offset _ offsets fits placed =>
      have atFront := (offset16_eq_ok_iff.mp fits).2
      rw [← List.length_append] at placed
      have rest := ih (front ++ block) placed
      rw [List.append_assoc] at rest
      cases blocks with
      | nil =>
        cases placed
        simp [slices, atFront]
      | cons next blocks =>
        cases placed with
        | @cons _ following _ offsets fitsNext _ =>
          have atNext := (offset16_eq_ok_iff.mp fitsNext).2
          rw [slices, List.flatten_cons, rest, atFront, atNext, List.drop_left, List.length_append,
            Nat.add_sub_cancel_left, List.take_left]

/-- Blocks as their offsets give them, and where the header in front of them ends. -/
structure StoredBlocks where
  headerEnd : Nat
  offsets : List UInt16
  blocks : List (List UInt8)
deriving DecidableEq

/-- The blocks fill the data from the end of the header on, in their order, and each stands at its offset. -/
structure StoredBlocks.Fill (data : List UInt8) (stored : StoredBlocks) : Prop where
  whole : ∃ header, data = header ++ stored.blocks.flatten ∧ header.length = stored.headerEnd
  placed : stored.offsets.map UInt16.toNat = positions stored.headerEnd (stored.blocks.map List.length)

theorem StoredBlocks.fill_of_placed (front : List UInt8) {blocks : List (List UInt8)} {offsets : List UInt16}
    (placed : List.Forall₂ (fun position offset => offset16 position = .ok offset)
      (positions front.length (blocks.map List.length)) offsets) :
    Fill (front ++ blocks.flatten) ⟨front.length, offsets, blocks⟩ := by
  refine ⟨⟨front, rfl, rfl⟩, ?_⟩
  rw [← List.map_id (positions _ _), map_eq_map_iff]
  exact placed.flip.imp fun offset position fits => (offset16_eq_ok_iff.mp fits).2

/-- Where a block starts that has these blocks and a header in front of it. -/
def blockAt (headerSize : Nat) (blocks : List (List UInt8)) (index : Nat) : Nat :=
  headerSize + ((blocks.take index).map List.length).sum

namespace OffsetCounter

theorem exists_advanceAll_iff {start : Nat} {blocks : List (List UInt8)} :
    (∃ result, advanceAll ⟨start⟩ (blocks.map List.length) = .ok result) ↔
      ∀ index < blocks.length, blockAt start blocks index ≤ 65535 := by
  simp only [Prod.exists, advanceAll_eq_ok_iff, exists_and_left, exists_eq, and_true, exists_offsets_iff,
    List.length_map, ← List.map_take, blockAt]

/-- Only an offset that does not fit is an obstacle. -/
theorem advanceAll_error {counter : OffsetCounter} {sizes : List Nat}
    (failed : counter.advanceAll sizes = .error error) : error = .offsetOverflow := by
  induction sizes generalizing counter with
  | nil => cases failed
  | cons size sizes ih =>
    simp only [advanceAll, advance, offset, offset16] at failed
    split at failed
    · cases rest : advanceAll ⟨counter.next + size⟩ sizes with
      | error later =>
        simp only [bind, Except.bind, pure, Except.pure, rest] at failed
        cases failed
        exact ih rest
      | ok result =>
        simp only [bind, Except.bind, pure, Except.pure, rest] at failed
        cases failed
    · cases failed
      rfl

end OffsetCounter

/-- The lookups of a lookup list. -/
def readLookupList (data : List UInt8) : Except EndOfData StoredBlocks := do
  let (offsets, headerEnd) ← (Scope.ofBytes data).readAt 0 readOffsets
  return ⟨headerEnd, offsets, slices data offsets⟩
where
  readOffsets : ReadM EndOfData (List UInt16) := do
    let count ← Cursor.word16
    Cursor.words16 count.toNat

section LookupList

variable {lookups : List (List UInt8)}

theorem exists_encodeLookupList_iff : (∃ bytes, encodeLookupList lookups = .ok bytes) ↔
    lookups.length ≤ 65535 ∧ ∀ index < lookups.length, blockAt (2 + 2 * lookups.length) lookups index ≤ 65535 := by
  rw [← exists_count16_iff, ← OffsetCounter.exists_advanceAll_iff]
  simp only [encodeLookupList, bind_eq_ok_iff, pure_eq_ok_iff]
  constructor
  · rintro ⟨_, count, counted, result, advanced, _⟩
    exact ⟨⟨count, counted⟩, result, advanced⟩
  · rintro ⟨⟨count, counted⟩, result, advanced⟩
    exact ⟨_, count, counted, result, advanced, rfl⟩

/-- Too many lookups are a bad value, whatever their offsets; else it is an offset that fails. -/
theorem encodeLookupList_error (failed : encodeLookupList lookups = .error error) :
    error = if lookups.length ≤ 65535 then .offsetOverflow else .badValue := by
  unfold encodeLookupList count16 at failed
  split at failed
  · rename_i few
    rw [if_pos few]
    cases advancing : OffsetCounter.advanceAll ⟨2 + 2 * lookups.length⟩ (lookups.map List.length) with
    | error other =>
      simp only [bind, Except.bind, advancing] at failed
      cases failed
      exact OffsetCounter.advanceAll_error advancing
    | ok result =>
      simp only [bind, Except.bind, advancing, pure, Except.pure] at failed
      cases failed
  · rename_i many
    cases failed
    rw [if_neg many]

theorem read_encodeLookupList (written : encodeLookupList lookups = .ok bytes) : ∃ stored,
    readLookupList bytes = .ok stored ∧ stored.headerEnd = 2 + 2 * lookups.length ∧ stored.blocks = lookups ∧
      stored.Fill bytes := by
  simp only [encodeLookupList, bind_eq_ok_iff, pure_eq_ok_iff] at written
  obtain ⟨count, counted, ⟨offsets, last⟩, advanced, rfl⟩ := written
  obtain ⟨placed, _⟩ := OffsetCounter.advanceAll_eq_ok_iff.mp advanced
  have offsetCount : offsets.length = lookups.length := by
    rw [← placed.length_eq, positions_length, List.length_map]
  have headerLength : (word16 count ++ words16 offsets).length = 2 + 2 * lookups.length := by
    rw [List.length_append, word16_length, words16_length, offsetCount, Nat.mul_comm]
  have headerReads : Reads readLookupList.readOffsets (word16 count ++ words16 offsets) offsets := by
    refine (Reads.word16 count).bind ?_
    rw [(count16_eq_ok_iff.mp counted).2, ← offsetCount]
    exact Reads.words16 offsets
  rw [← headerLength] at placed
  have found : readLookupList (word16 count ++ words16 offsets ++ lookups.flatten) =
      .ok ⟨(word16 count ++ words16 offsets).length, offsets, lookups⟩ := by
    have stands : Stands (word16 count ++ words16 offsets ++ lookups.flatten) 0 (word16 count ++ words16 offsets) :=
      ⟨[], _, rfl, rfl⟩
    simp only [readLookupList, bind_eq_ok_iff, pure_eq_ok_iff]
    refine ⟨_, Stands.readAt (.ofBytes _) stands headerReads, ?_⟩
    simp only [Scope.ofBytes, Nat.zero_add, slices_of_placed _ placed]
  exact ⟨_, found, headerLength, rfl, StoredBlocks.fill_of_placed _ placed⟩

end LookupList

/-- A lookup as its bytes describe it. -/
structure StoredLookup where
  kind : UInt16
  flags : UInt16
  filteringSet : Option UInt16
  subtables : StoredBlocks
deriving DecidableEq

namespace StoredLookup

/-- Kind, flags, offsets and filtering set. Whether there is a set is told from the flags. -/
def readHeader (filtered : UInt16 → Bool) : ReadM EndOfData (UInt16 × UInt16 × List UInt16 × Option UInt16) := do
  let kind ← Cursor.word16
  let flags ← Cursor.word16
  let count ← Cursor.word16
  let offsets ← Cursor.words16 count.toNat
  if filtered flags then
    let set ← Cursor.word16
    return (kind, flags, offsets, some set)
  else return (kind, flags, offsets, none)

def read (filtered : UInt16 → Bool) (data : List UInt8) : Except EndOfData StoredLookup := do
  let ((kind, flags, offsets, filteringSet), headerEnd) ← (Scope.ofBytes data).readAt 0 (readHeader filtered)
  return ⟨kind, flags, filteringSet, ⟨headerEnd, offsets, slices data offsets⟩⟩

end StoredLookup

namespace Lookup

/-- The filtering set as it is written. -/
def filteringBytes (lookup : Lookup) : List UInt8 := (lookup.markFilteringSet.map word16).getD []

/-- The size of what stands in front of this many subtables. -/
def headerSize (lookup : Lookup) (count : Nat) : Nat :=
  6 + 2 * count + if lookup.markFilteringSet.isSome then 2 else 0

variable {lookup : Lookup} {contents : List (List UInt8)}

theorem filteringBytes_length (lookup : Lookup) :
    lookup.filteringBytes.length = if lookup.markFilteringSet.isSome then 2 else 0 := by
  unfold filteringBytes
  cases lookup.markFilteringSet <;> rfl

theorem assemble_eq (lookup : Lookup) (contents : List (List UInt8)) : lookup.assemble contents = do
    let count ← count16 contents.length
    let (offsets, _) ← OffsetCounter.advanceAll ⟨lookup.headerSize contents.length⟩ (contents.map List.length)
    return word16 lookup.kind.number ++ word16 lookup.flags ++ word16 count ++ words16 offsets ++
      lookup.filteringBytes ++ contents.flatten := by
  unfold assemble headerSize filteringBytes
  cases lookup.markFilteringSet <;> rfl

theorem exists_assemble_iff : (∃ bytes, lookup.assemble contents = .ok bytes) ↔ contents.length ≤ 65535 ∧
    ∀ index < contents.length, blockAt (lookup.headerSize contents.length) contents index ≤ 65535 := by
  rw [← exists_count16_iff, ← OffsetCounter.exists_advanceAll_iff]
  simp only [assemble_eq, bind_eq_ok_iff, pure_eq_ok_iff]
  constructor
  · rintro ⟨_, count, counted, result, advanced, _⟩
    exact ⟨⟨count, counted⟩, result, advanced⟩
  · rintro ⟨⟨count, counted⟩, result, advanced⟩
    exact ⟨_, count, counted, result, advanced, rfl⟩

theorem reads_header {filtered : UInt16 → Bool} {offsets : List UInt16}
    (tells : filtered lookup.flags = lookup.markFilteringSet.isSome) (counted : count.toNat = offsets.length) :
    Reads (StoredLookup.readHeader filtered) (word16 lookup.kind.number ++ (word16 lookup.flags ++
      (word16 count ++ (words16 offsets ++ lookup.filteringBytes))))
      (lookup.kind.number, lookup.flags, offsets, lookup.markFilteringSet) := by
  refine (Reads.word16 _).bind ((Reads.word16 _).bind ((Reads.word16 _).bind ?_))
  rw [counted]
  refine (Reads.words16 offsets).bind ?_
  rw [tells, filteringBytes]
  cases lookup.markFilteringSet with
  | none => exact Reads.pure _
  | some set => exact (Reads.word16 set).bind_last (Reads.pure _)

/-- A lookup that was put together is cut into its subtables again. -/
theorem read_assemble (written : lookup.assemble contents = .ok bytes) : ∃ stored,
    (∀ filtered : UInt16 → Bool, filtered lookup.flags = lookup.markFilteringSet.isSome →
      StoredLookup.read filtered bytes = .ok stored) ∧
    stored.kind = lookup.kind.number ∧ stored.flags = lookup.flags ∧
    stored.filteringSet = lookup.markFilteringSet ∧
    stored.subtables.headerEnd = lookup.headerSize contents.length ∧ stored.subtables.blocks = contents ∧
    stored.subtables.Fill bytes := by
  simp only [assemble_eq, bind_eq_ok_iff, pure_eq_ok_iff] at written
  obtain ⟨count, counted, ⟨offsets, last⟩, advanced, whole⟩ := written
  obtain ⟨placed, _⟩ := OffsetCounter.advanceAll_eq_ok_iff.mp advanced
  have offsetCount : offsets.length = contents.length := by
    rw [← placed.length_eq, positions_length, List.length_map]
  have number := (count16_eq_ok_iff.mp counted).2.trans offsetCount.symm
  obtain ⟨header, isHeader⟩ : ∃ header, header = word16 lookup.kind.number ++ (word16 lookup.flags ++
      (word16 count ++ (words16 offsets ++ lookup.filteringBytes))) := ⟨_, rfl⟩
  have headerLength : header.length = lookup.headerSize contents.length := by
    simp only [isHeader, List.length_append, word16_length, words16_length, offsetCount, filteringBytes_length,
      headerSize]
    omega
  have parts : bytes = header ++ contents.flatten := by
    simp only [← whole, isHeader, List.append_assoc]
  subst parts
  rw [← headerLength] at placed
  refine ⟨⟨lookup.kind.number, lookup.flags, lookup.markFilteringSet, ⟨header.length, offsets, contents⟩⟩, ?_, rfl, rfl,
    rfl, headerLength, rfl, StoredBlocks.fill_of_placed header placed⟩
  intro filtered tells
  have headerReads := reads_header tells number
  rw [← isHeader] at headerReads
  have stands : Stands (header ++ contents.flatten) 0 header := ⟨[], _, rfl, rfl⟩
  simp only [StoredLookup.read, bind_eq_ok_iff, pure_eq_ok_iff]
  refine ⟨_, Stands.readAt (.ofBytes _) stands headerReads, ?_⟩
  simp only [Scope.ofBytes, Nat.zero_add, slices_of_placed header placed]

end Lookup

/-- The bytes of a slot, with the delta sets before and after it: those that it has, else those that its subtable is
encoded to. -/
inductive LookupSlot.Gives (font : Font) (names : LookupNames) (owner : String) :
    LookupSlot → DeltaSets → List UInt8 → DeltaSets → Prop
  | kept {subtable : Subtable} : Gives font names owner ⟨subtable, some content⟩ sets content sets
  | made {subtable : Subtable} (run : (subtable.encode font names owner).run before = (.ok content, after)) :
      Gives font names owner ⟨subtable, none⟩ before content after

namespace Lookup

theorem encodeSlots_of_gives {slots : List LookupSlot} {contents : List (List UInt8)}
    (gives : Threaded (LookupSlot.Gives font names owner) before slots contents after) (index : Nat) :
    ∃ filled, encodeSlots font names owner index slots before = (.ok (), filled, after) ∧
      filled.map (fun slot => slot.encoded.getD []) = contents := by
  induction gives generalizing index with
  | nil => exact ⟨[], rfl, rfl⟩
  | @cons slot _ content _ _ _ _ here _ ih =>
    obtain ⟨filled, rest, all⟩ := ih (index + 1)
    refine ⟨⟨slot.subtable, some content⟩ :: filled, ?_, by rw [List.map_cons, all, Option.getD_some]⟩
    cases here with
    | kept => simp only [encodeSlots, rest]
    | made run => simp only [encodeSlots, run, rest]

theorem encode_of_gives {lookup : Lookup} {contents : List (List UInt8)}
    (gives : Threaded (LookupSlot.Gives font names lookup.name) before lookup.slots contents after) :
    (lookup.encode font names before).1 = (lookup.assemble contents).mapError .write := by
  obtain ⟨filled, encoding, all⟩ := encodeSlots_of_gives gives 0
  simp only [encode, encoding, all]

/-- A lookup whose subtables encode is encoded exactly if there are no more of them than can be counted and each starts
within reach of its offset, wherever it ends. The bytes then give back its kind, its flags and its filtering set to any
reader that can tell from the flags whether there is one; cut at their offsets they give the bytes of each subtable in
turn, which fill the data behind the header. A lookup list does the same with its lookups: too many of them are a bad
value, and else an offset overflows. -/
theorem nested_blocks_read_back (font : Font) (names : LookupNames) (lookup : Lookup) (before after : DeltaSets)
    (contents : List (List UInt8))
    (gives : Threaded (LookupSlot.Gives font names lookup.name) before lookup.slots contents after)
    (compiled : CompiledTables) (kind : TableKind) :
    ((∃ bytes, (lookup.encode font names before).1 = .ok bytes) ↔ lookup.slots.length ≤ 65535 ∧
      ∀ index < lookup.slots.length, blockAt (lookup.headerSize lookup.slots.length) contents index ≤ 65535) ∧
    (∀ bytes, (lookup.encode font names before).1 = .ok bytes → ∃ stored,
      (∀ filtered : UInt16 → Bool, filtered lookup.flags = lookup.markFilteringSet.isSome →
        StoredLookup.read filtered bytes = .ok stored) ∧
      stored.kind = lookup.kind.number ∧ stored.flags = lookup.flags ∧
      stored.filteringSet = lookup.markFilteringSet ∧
      stored.subtables.headerEnd = lookup.headerSize lookup.slots.length ∧ stored.subtables.blocks = contents ∧
      stored.subtables.Fill bytes) ∧
    ((∃ bytes, compiled.lookupList kind = .ok bytes) ↔ (compiled.lookups kind).length ≤ 65535 ∧
      ∀ index < (compiled.lookups kind).length,
        blockAt (2 + 2 * (compiled.lookups kind).length) (compiled.lookups kind) index ≤ 65535) ∧
    (∀ error, compiled.lookupList kind = .error error →
      error = if (compiled.lookups kind).length ≤ 65535 then .offsetOverflow else .badValue) ∧
    ∀ bytes, compiled.lookupList kind = .ok bytes → ∃ stored, readLookupList bytes = .ok stored ∧
      stored.headerEnd = 2 + 2 * (compiled.lookups kind).length ∧ stored.blocks = compiled.lookups kind ∧
      stored.Fill bytes := by
  have sameCount : lookup.slots.length = contents.length := gives.forall₂.length_eq
  rw [encode_of_gives gives, sameCount]
  simp only [mapError_eq_ok_iff]
  exact ⟨exists_assemble_iff, fun bytes written => read_assemble written, exists_encodeLookupList_iff,
    fun error failed => encodeLookupList_error failed, fun bytes written => read_encodeLookupList written⟩

/-- A subtable that raises or lowers one mark. -/
def shiftedMark (glyph : GlyphId) (distance : Int16) : SingleAdjustment :=
  ⟨(∅ : Std.TreeMap GlyphId ValueRecord).insert glyph ⟨0, distance, 0, 0⟩, ∅⟩

/-- Two subtables, of which the first has bytes of 22, and a filtering set. -/
def shiftedMarks : Lookup :=
  filterMarks { name := "marks", kind := .singleAdjustment, flags := 5, slots :=
    [⟨.adjustment (shiftedMark 9 10), some (List.replicate 22 7)⟩, ⟨.adjustment (shiftedMark 10 (-10)), none⟩] } 3

/-- A reader that goes by the flag finds the set and both subtables, and the lookup twice in a list of two. -/
theorem nested_blocks_read_back_filtered : ∃ content bytes stored list listed,
    Threaded (LookupSlot.Gives {} {} shiftedMarks.name) (Font.deltaSets {}) shiftedMarks.slots
      [List.replicate 22 7, content] (Font.deltaSets {}) ∧
    (shiftedMarks.encode {} {} (Font.deltaSets {})).1 = .ok bytes ∧
    StoredLookup.read (fun flags => flags &&& filteringFlag != 0) bytes = .ok stored ∧
    stored.flags = 0x0015 ∧ stored.filteringSet = some 3 ∧ stored.subtables.headerEnd = 12 ∧
    stored.subtables.blocks = [List.replicate 22 7, content] ∧
    CompiledTables.lookupList ⟨[], [bytes, bytes], none⟩ .positioning = .ok list ∧ readLookupList list = .ok listed ∧
    listed.headerEnd = 6 ∧ listed.blocks = [bytes, bytes] := by
  have encodes : (shiftedMark 10 (-10)).encode.isOk = true := by decide +kernel
  obtain ⟨content, encoded⟩ := exists_of_isOk encodes
  have short : content.length = 22 := by
    have sizes : (shiftedMark 10 (-10)).encode.map List.length = .ok 22 := by decide +kernel
    rw [encoded] at sizes
    exact Except.ok.inj sizes
  have gives : Threaded (LookupSlot.Gives {} {} shiftedMarks.name) (Font.deltaSets {}) shiftedMarks.slots
      [List.replicate 22 7, content] (Font.deltaSets {}) := by
    refine .cons .kept (.cons (.made ?_) .nil)
    exact VariationM.run_write_eq_ok_iff.mpr ⟨encoded, rfl⟩
  have reads := nested_blocks_read_back {} {} shiftedMarks _ _ _ gives
  have inReach : ∀ index < shiftedMarks.slots.length,
      blockAt (shiftedMarks.headerSize shiftedMarks.slots.length) [List.replicate 22 7, content] index ≤ 65535 := by
    intro index inside
    have cases : index = 0 ∨ index = 1 := Nat.le_one_iff_eq_zero_or_eq_one.mp (Nat.le_of_lt_succ inside)
    rcases cases with rfl | rfl <;> simp [blockAt, headerSize, shiftedMarks, filterMarks]
  obtain ⟨bytes, written⟩ := (reads ⟨[], [], none⟩ .positioning).1.mpr ⟨by decide, inReach⟩
  obtain ⟨_, readsLookup, listable, _, readsList⟩ := reads ⟨[], [bytes, bytes], none⟩ .positioning
  obtain ⟨stored, isRead, _, flags, set, headerEnd, blocks, filled⟩ := readsLookup bytes written
  have size : bytes.length = 56 := by
    obtain ⟨header, whole, isHeader⟩ := filled.whole
    rw [whole, blocks, List.length_append, isHeader, headerEnd]
    simp [short, headerSize, shiftedMarks, filterMarks]
  obtain ⟨list, listWritten⟩ := listable.mpr ⟨by simp [CompiledTables.lookups], fun index inside => by
    have cases : index = 0 ∨ index = 1 := Nat.le_one_iff_eq_zero_or_eq_one.mp (Nat.le_of_lt_succ inside)
    rcases cases with rfl | rfl <;> simp [blockAt, CompiledTables.lookups, size]⟩
  obtain ⟨listed, listRead, listHeader, isListed, _⟩ := readsList list listWritten
  exact ⟨content, bytes, stored, list, listed, gives, written, isRead _ (by decide), flags, set, headerEnd, blocks,
    listWritten, listRead, listHeader, isListed⟩

end Lookup

end Kashida
