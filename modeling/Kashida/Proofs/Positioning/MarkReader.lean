import Kashida.Positioning.Mark
import Kashida.Proofs.Tables

/-! Mark attachment read back. The reader follows the published layout: coverages of marks and bases, an array with the
class and the anchor of each mark, and an array with a row of anchors for each base. Offsets of anchors count from the
array that holds them. -/
namespace Kashida

/-- Mark attachment as its bytes describe it: the class number and the anchor of each mark, and for each base a row with
an anchor for each class. -/
structure StoredMarks where
  markCoverage : Coverage
  baseCoverage : Coverage
  classCount : UInt16
  marks : Located (List (UInt16 × Located Anchor))
  bases : Located (List (List (Option (Located Anchor))))
deriving DecidableEq

namespace StoredMarks

structure Header where
  markCoverageAt : UInt16
  baseCoverageAt : UInt16
  classCount : UInt16
  markArrayAt : UInt16
  baseArrayAt : UInt16

def readHeader : ReadM ParseError Header := do
  let format ← Cursor.step Cursor.word16
  if format = 1 then
    let markCoverageAt ← Cursor.step Cursor.word16
    let baseCoverageAt ← Cursor.step Cursor.word16
    let classCount ← Cursor.step Cursor.word16
    let markArrayAt ← Cursor.step Cursor.word16
    let baseArrayAt ← Cursor.step Cursor.word16
    return ⟨markCoverageAt, baseCoverageAt, classCount, markArrayAt, baseArrayAt⟩
  else throw .badVersion

/-- A class number and an offset for each mark. -/
def readMarkRecords : ReadM ParseError (List (UInt16 × UInt16)) := do
  let count ← Cursor.step Cursor.word16
  Cursor.repeated (do
    let number ← Cursor.step Cursor.word16
    let offset ← Cursor.step Cursor.word16
    return (number, offset)) count.toNat

/-- An offset for each base and class. -/
def readBaseRecords (classCount : Nat) : ReadM ParseError (List (List UInt16)) := do
  let count ← Cursor.step Cursor.word16
  Cursor.repeated (Cursor.step (Cursor.words16 classCount)) count.toNat

def followMark (array : Scope) (record : UInt16 × UInt16) : Except ParseError (UInt16 × Located Anchor) := do
  return (record.1, ← array.locate Anchor.read record.2)

/-- A base may be without anchors for some classes. -/
def followRow (array : Scope) (offsets : List UInt16) : Except ParseError (List (Option (Located Anchor))) :=
  offsets.mapM (array.locate? Anchor.read)

def read (scope : Scope) : Except ParseError StoredMarks := do
  let (header, _) ← scope.readAt 0 readHeader
  let (markCoverage, _) ← scope.readAt header.markCoverageAt.toNat Coverage.read
  let (baseCoverage, _) ← scope.readAt header.baseCoverageAt.toNat Coverage.read
  let marks ← scope.locateArray readMarkRecords followMark header.markArrayAt
  let bases ← scope.locateArray (readBaseRecords header.classCount.toNat) followRow header.baseArrayAt
  return ⟨markCoverage, baseCoverage, header.classCount, marks, bases⟩

end StoredMarks

namespace MarkAttachment

open StoredMarks

/-- Records of marks lead to the anchors that their offsets lead to. -/
theorem exists_followMark {array : Scope} {anchors : List (UInt16 × Anchor)} {offsets : List UInt16}
    {located : List (Located Anchor)}
    (each : List.Forall₂ (fun offset table => array.locate Anchor.read offset = .ok table) offsets located)
    (tables : located.map Located.table = anchors.map Prod.snd) :
    ∃ records : List (UInt16 × Located Anchor),
      List.Forall₂ (fun record result => followMark array record = .ok result)
        ((anchors.zip offsets).map fun entry => (entry.1.1, entry.2)) records ∧
      records.map (Prod.map id Located.table) = anchors ∧ records.map Prod.snd = located := by
  induction each generalizing anchors with
  | nil =>
    cases anchors with
    | nil => exact ⟨[], .nil, rfl, rfl⟩
    | cons anchor anchors => cases tables
  | @cons offset table _ _ here _ ih =>
    cases anchors with
    | nil => cases tables
    | cons anchor anchors =>
      obtain ⟨first, rest⟩ := List.cons.inj tables
      obtain ⟨records, follows, same, places⟩ := ih rest
      refine ⟨(anchor.1, table) :: records, .cons ?_ follows, ?_, by rw [List.map_cons, places]⟩
      · rw [followMark, here]
        rfl
      · rw [List.map_cons, same, Prod.map, first]
        rfl

theorem locateArray_markArray (scope : Scope) {anchors : List (UInt16 × Anchor)} {offset : UInt16}
    (written : markArray anchors = .ok bytes) (stands : Stands scope.data offset.toNat bytes) :
    ∃ marks, scope.locateArray readMarkRecords followMark offset = .ok marks ∧
      marks.table.map (Prod.map id Located.table) = anchors ∧
      Contiguous marks.stop (marks.table.map Prod.snd) (scope.base + offset.toNat + bytes.length) := by
  simp only [markArray, bind_eq_ok_iff, pure_eq_ok_iff, Prod.exists, OffsetCounter.advanceAll_eq_ok_iff] at written
  obtain ⟨count, counted, offsets, _, ⟨placed, _⟩, whole⟩ := written
  have offsetCount : (anchors.zip offsets).length = anchors.length := by
    rw [List.length_zip, ← placed.length_eq, positions_length, List.length_map, Nat.min_self]
  obtain ⟨header, isHeader⟩ : ∃ header, header = word16 count ++
      (anchors.zip offsets).flatMap fun entry => word16 entry.1.1 ++ word16 entry.2 := ⟨_, rfl⟩
  have headerLength : header.length = 2 + 4 * anchors.length := by
    rw [isHeader, List.length_append, length_flatMap_of_forall 4 fun _ _ => rfl, offsetCount, word16_length,
      Nat.mul_comm]
  have headerReads : Reads readMarkRecords header
      ((anchors.zip offsets).map fun entry => (entry.1.1, entry.2)) := by
    rw [isHeader]
    refine (Reads.word16 count).step.bind ?_
    rw [(count16_eq_ok_iff.mp counted).2, ← offsetCount]
    exact Reads.repeated fun _ _ => (Reads.word16 _).step.bind ((Reads.word16 _).step.bind_last (Reads.pure _))
  have parts : bytes = header ++ (anchors.map Prod.snd).flatMap Anchor.bytes := by
    rw [isHeader, List.flatMap_map]
    exact whole.symm
  have placed : List.Forall₂ (fun position offset => offset16 position = .ok offset)
      (DeltaSets.positions header.length ((anchors.map Prod.snd).map Anchor.size)) offsets := by
    rw [headerLength, List.map_map]
    exact placed
  rw [parts] at stands ⊢
  obtain ⟨back, isArray⟩ := stands.offset scope
  obtain ⟨located, each, tables, contiguous⟩ := Anchor.locate_all (scope.base + offset.toNat) header back placed
  obtain ⟨records, follows, same, places⟩ := exists_followMark each tables
  rw [← places] at contiguous
  exact ⟨_, Scope.locateArray_eq isArray ⟨[], _, List.append_assoc .., rfl⟩ headerReads follows, same, contiguous⟩

theorem locateArray_baseArray (scope : Scope) {rows : List (List Anchor)} {classCount : Nat} {offset : UInt16}
    (even : ∀ row ∈ rows, row.length = classCount) (written : baseArray rows.length rows.flatten = .ok bytes)
    (stands : Stands scope.data offset.toNat bytes) :
    ∃ bases, scope.locateArray (readBaseRecords classCount) followRow offset = .ok bases ∧
      bases.table.map (List.map (Option.map Located.table)) = rows.map (List.map some) ∧
      bases.start = scope.base + offset.toNat ∧
      Contiguous bases.stop (bases.table.flatten.filterMap id) (scope.base + offset.toNat + bytes.length) := by
  simp only [baseArray, bind_eq_ok_iff, pure_eq_ok_iff, Prod.exists, OffsetCounter.advanceAll_eq_ok_iff] at written
  obtain ⟨count, counted, offsets, _, ⟨placed, _⟩, rfl⟩ := written
  have offsetCount : offsets.length = rows.flatten.length := by
    rw [← placed.length_eq, positions_length, List.length_map]
  have nonzero := offsets_ne_zero (by omega) placed
  obtain ⟨header, isHeader⟩ : ∃ header, header = word16 count ++ words16 offsets := ⟨_, rfl⟩
  have headerLength : header.length = 2 + 2 * rows.flatten.length := by
    rw [isHeader, List.length_append, word16_length, words16_length, offsetCount, Nat.mul_comm]
  rw [← isHeader] at stands ⊢
  rw [← headerLength] at placed
  obtain ⟨back, isArray⟩ := stands.offset scope
  obtain ⟨located, each, tables, contiguous⟩ := Anchor.locate_all (scope.base + offset.toNat) header back placed
  -- The places in rows like the anchors, and the offsets in rows like the places.
  obtain ⟨places, rfl, tableRows⟩ := exists_groups (map_eq_map_iff.mp (tables.trans (List.map_id _).symm))
  obtain ⟨offsetRows, rfl, follows⟩ := exists_groups each
  have rowTables : places.map (List.map Located.table) = rows.map id :=
    map_eq_map_iff.mpr (tableRows.imp fun place row same => (map_eq_map_iff.mpr same).trans (List.map_id row))
  have headerReads : Reads (readBaseRecords classCount) header offsetRows := by
    rw [isHeader, words16_flatten]
    refine (Reads.word16 count).step.bind ?_
    rw [(count16_eq_ok_iff.mp counted).2, ← tableRows.length_eq, ← follows.length_eq]
    refine Reads.repeated_id fun offsets member => ?_
    obtain ⟨place, placed, alike⟩ := exists_of_forall₂ follows.flip member
    obtain ⟨row, listed, same⟩ := exists_of_forall₂ tableRows.flip placed
    rw [← even row listed, ← same.length_eq, ← alike.length_eq]
    exact (Reads.words16 offsets).step
  have rowsFollow : List.Forall₂ (fun offsets found => followRow ⟨scope.base + offset.toNat,
      header ++ rows.flatten.flatMap Anchor.bytes ++ back⟩ offsets = .ok found) offsetRows
      (places.map (List.map some)) := by
    rw [List.forall₂_map_right_iff]
    have nonzero : ∀ offsets ∈ offsetRows, ∀ offset ∈ offsets, offset ≠ 0 :=
      fun offsets member offset listed => nonzero offset (List.mem_flatten_of_mem member listed)
    refine ((List.forall₂_and_left offsetRows places).mpr ⟨nonzero, follows⟩).imp fun offsets place => ?_
    rintro ⟨nonzero, follows⟩
    rw [followRow, mapM_eq_ok_iff, List.forall₂_map_right_iff]
    refine ((List.forall₂_and_left offsets place).mpr ⟨nonzero, follows⟩).imp fun offset found => ?_
    rintro ⟨nonzero, here⟩
    rw [Scope.locate?_of_ne_zero nonzero, here]
    rfl
  refine ⟨_, Scope.locateArray_eq isArray ⟨[], _, List.append_assoc .., rfl⟩ headerReads rowsFollow, ?_, rfl, ?_⟩
  · rw [List.map_id] at rowTables
    rw [← rowTables]
    simp only [List.map_map, Function.comp_def, Option.map_some]
  · rw [← List.map_flatten, List.filterMap_map, Function.id_comp, List.filterMap_some]
    exact contiguous

/-- The table reads back, whatever stands behind it. -/
theorem read_layout {classCount : Nat} {marks bases : List GlyphId} {records : List (UInt16 × Anchor)}
    {rows : List (List Anchor)} (marksAscending : marks.Pairwise (· < ·)) (basesAscending : bases.Pairwise (· < ·))
    (paired : rows.length = bases.length) (even : ∀ row ∈ rows, row.length = classCount)
    (written : layout classCount marks bases records rows.flatten = .ok bytes) (origin : Nat) (back : List UInt8) :
    ∃ stored, StoredMarks.read ⟨origin, bytes ++ back⟩ = .ok stored ∧ stored.markCoverage.glyphs = marks ∧
      stored.baseCoverage.glyphs = bases ∧ stored.classCount.toNat = classCount ∧
      stored.marks.table.map (Prod.map id Located.table) = records ∧
      stored.bases.table.map (List.map (Option.map Located.table)) = rows.map (List.map some) ∧
      Contiguous stored.marks.stop (stored.marks.table.map Prod.snd) stored.bases.start ∧
      Contiguous stored.bases.stop (stored.bases.table.flatten.filterMap id) (origin + bytes.length) := by
  simp only [layout, Coverage.ofList_of_ascending marksAscending, Coverage.ofList_of_ascending basesAscending, ← paired,
    bind_eq_ok_iff, pure_eq_ok_iff] at written
  obtain ⟨count, counted, markCoverageAt, markCoverageFits, markCoverage, marksCovered, baseCoverageAt,
    baseCoverageFits, baseCoverage, basesCovered, markArrayAt, markArrayFits, markBytes, marksWritten, baseArrayAt,
    baseArrayFits, baseBytes, basesWritten, rfl⟩ := written
  have number := (count16_eq_ok_iff.mp counted).2
  have markCoverageStart := (offset16_eq_ok_iff.mp markCoverageFits).2
  have baseCoverageStart := (offset16_eq_ok_iff.mp baseCoverageFits).2
  have markArrayStart := (offset16_eq_ok_iff.mp markArrayFits).2
  have baseArrayStart := (offset16_eq_ok_iff.mp baseArrayFits).2
  have headerReads : Reads readHeader (words16 [1, markCoverageAt, baseCoverageAt, count, markArrayAt, baseArrayAt])
      ⟨markCoverageAt, baseCoverageAt, count, markArrayAt, baseArrayAt⟩ :=
    (Reads.word16 1).step.bind ((Reads.word16 _).step.bind ((Reads.word16 _).step.bind ((Reads.word16 _).step.bind
      ((Reads.word16 _).step.bind ((Reads.word16 _).step.bind (Reads.pure _))))))
  have headerLength : (words16 [1, markCoverageAt, baseCoverageAt, count, markArrayAt, baseArrayAt]).length =
      headerSize := rfl
  generalize words16 [1, markCoverageAt, baseCoverageAt, count, markArrayAt, baseArrayAt] = header
    at headerReads headerLength ⊢
  have parts := stands_blocks [] back [header, markCoverage, baseCoverage, markBytes, baseBytes]
  have joined : [] ++ [header, markCoverage, baseCoverage, markBytes, baseBytes].flatten =
      header ++ markCoverage ++ baseCoverage ++ markBytes ++ baseBytes := by simp
  rw [joined] at parts
  simp only [List.map_cons, List.map_nil, DeltaSets.positions, List.length_nil, Nat.zero_add, List.forall₂_cons,
    headerLength] at parts
  obtain ⟨headerStands, markCoverageStands, baseCoverageStands, markArrayStands, baseArrayStands, _⟩ := parts
  rw [← markCoverageStart] at markCoverageStands
  rw [← baseCoverageStart] at baseCoverageStands
  rw [← markArrayStart] at markArrayStands
  rw [← baseArrayStart] at baseArrayStands
  obtain ⟨foundMarks, marksFound, sameMarks, marksContiguous⟩ :=
    locateArray_markArray ⟨origin, _⟩ marksWritten markArrayStands
  obtain ⟨foundBases, basesFound, sameBases, basesStart, basesContiguous⟩ :=
    locateArray_baseArray ⟨origin, _⟩ even basesWritten baseArrayStands
  refine ⟨⟨⟨marks⟩, ⟨bases⟩, count, foundMarks, foundBases⟩, ?_, rfl, rfl, number, sameMarks, sameBases, ?_, ?_⟩
  · rw [← number] at basesFound
    simp only [StoredMarks.read, bind_eq_ok_iff, pure_eq_ok_iff]
    exact ⟨_, headerStands.readAt ⟨origin, _⟩ headerReads,
      _, markCoverageStands.readAt ⟨origin, _⟩ (Coverage.encode_reads marksCovered).2,
      _, baseCoverageStands.readAt ⟨origin, _⟩ (Coverage.encode_reads basesCovered).2,
      foundMarks, marksFound, foundBases, basesFound, rfl⟩
  · have behind : foundBases.start = origin + markArrayAt.toNat + markBytes.length := by
      simp only [basesStart, baseArrayStart, markArrayStart, Nat.add_assoc]
    rwa [behind]
  · have ended : origin + (header ++ markCoverage ++ baseCoverage ++ markBytes ++ baseBytes).length =
        origin + baseArrayAt.toNat + baseBytes.length := by
      simp only [List.length_append, headerLength, baseArrayStart]
      omega
    rwa [ended]

end MarkAttachment

end Kashida
