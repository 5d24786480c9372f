import Kashida.Proofs.Variation.Growth

/-! The variation store read back. The reader knows only the published layout: a region table and groups of rows, each
found by its 32-bit position. It finds the regions and rows of the delta sets that were written, in their order, and
nothing behind them. -/
namespace Kashida

/-- The stretch of one axis over which a region acts. -/
structure AxisSpan where
  start : F2Dot14
  peak : F2Dot14
  stop : F2Dot14
deriving DecidableEq

namespace AxisSpan

/-- From the default to a peak, whichever side it is on. -/
def toPeak (peak : F2Dot14) : AxisSpan := ⟨⟨min peak.raw 0⟩, peak, ⟨max peak.raw 0⟩⟩

/-- An axis that a region leaves alone. -/
def still : AxisSpan := ⟨⟨0⟩, ⟨0⟩, ⟨0⟩⟩

def read : ReadM EndOfData AxisSpan := do
  let start ← Cursor.int16
  let peak ← Cursor.int16
  let stop ← Cursor.int16
  return ⟨⟨start⟩, ⟨peak⟩, ⟨stop⟩⟩

end AxisSpan

/-- A region as a store describes it, axis by axis. -/
def Region.spans (region : Region) : List AxisSpan :=
  [Axis.left, Axis.right].map fun axis => if axis = region.axis then .toPeak region.peak else .still

/-- A group of rows as a store describes it. -/
structure StoredGroup where
  regions : List UInt16
  /-- How many deltas of a row are wide. -/
  wide : Nat
  rows : List (List Int16)
deriving DecidableEq

namespace StoredGroup

/-- A delta of 8 bits. -/
def narrow : ReadM EndOfData Int16 := do
  match ← Cursor.take 1 with
  | [a] => return a.toInt8.toInt16
  | _ => throw .endOfData

/-- Wide deltas come first. -/
def readRow (wide narrow : Nat) : ReadM EndOfData (List Int16) := do
  let first ← Cursor.repeated Cursor.int16 wide
  let rest ← Cursor.repeated StoredGroup.narrow narrow
  return first ++ rest

def read : ReadM EndOfData StoredGroup := do
  let rowCount ← Cursor.word16
  let wide ← Cursor.word16
  let regionCount ← Cursor.word16
  let regions ← Cursor.words16 regionCount.toNat
  let rows ← Cursor.repeated (readRow wide.toNat (regionCount.toNat - wide.toNat)) rowCount.toNat
  return ⟨regions, wide.toNat, rows⟩

end StoredGroup

/-- The content of a store and the position behind its last part. -/
structure VariationStore where
  axisCount : UInt16
  regions : List (List AxisSpan)
  groups : List StoredGroup
  size : Nat
deriving DecidableEq

namespace VariationStore

/-- The positions of the region table and of the groups. -/
def readHeader : ReadM ParseError (UInt32 × List UInt32) := do
  let format ← Cursor.step Cursor.word16
  if format = 1 then
    let regionsAt ← Cursor.step Cursor.word32
    let groupCount ← Cursor.step Cursor.word16
    let groupsAt ← Cursor.step (Cursor.repeated Cursor.word32 groupCount.toNat)
    return (regionsAt, groupsAt)
  else throw .badVersion

def readRegions : ReadM EndOfData (UInt16 × List (List AxisSpan)) := do
  let axisCount ← Cursor.word16
  let regionCount ← Cursor.word16
  let regions ← Cursor.repeated (Cursor.repeated AxisSpan.read axisCount.toNat) regionCount.toNat
  return (axisCount, regions)

def read (data : List UInt8) : Except ParseError VariationStore := do
  let scope := Scope.ofBytes data
  let ((regionsAt, groupsAt), _) ← scope.readAt 0 readHeader
  let ((axisCount, regions), behind) ← scope.readAt regionsAt.toNat (Cursor.step readRegions)
  let groups ← groupsAt.mapM fun position => scope.readAt position.toNat (Cursor.step StoredGroup.read)
  return ⟨axisCount, regions, groups.map Prod.fst, (groups.getLast?.map Prod.snd).getD behind⟩

/-- The row at an index: each delta beside what its region spans. -/
def row? (store : VariationStore) (index : DeltaSetIndex) : Option (List (List AxisSpan × Int)) := do
  let group ← store.groups[index.outer.toNat]?
  let row ← group.rows[index.inner.toNat]?
  return List.zipWith (fun region delta => (store.regions.getD region.toNat [], delta.toInt)) group.regions row

end VariationStore

namespace AxisSpan

def bytes (span : AxisSpan) : List UInt8 := span.start.bytes ++ span.peak.bytes ++ span.stop.bytes

theorem reads (span : AxisSpan) : Reads read span.bytes span := by
  rw [bytes, List.append_assoc]
  exact (Reads.int16 _).bind ((Reads.int16 _).bind ((Reads.int16 _).bind_last (Reads.pure _)))

theorem bytes_toPeak (peak : F2Dot14) : (toPeak peak).bytes = Region.span peak := by
  obtain ⟨raw⟩ := peak
  have start : min raw 0 = if raw < 0 then raw else 0 := by
    show (if raw ≤ 0 then raw else 0) = _
    grind
  have stop : max raw 0 = if 0 < raw then raw else 0 := by
    show (if raw ≤ 0 then 0 else raw) = _
    grind
  simp only [bytes, toPeak, Region.span, start, stop]
  grind

theorem bytes_still : still.bytes = Region.span ⟨0⟩ := rfl

end AxisSpan

theorem Region.bytes_eq (region : Region) : region.bytes = region.spans.flatMap AxisSpan.bytes := by
  obtain ⟨axis, peak⟩ := region
  cases axis with
  | left => simp [Region.bytes, spans, AxisSpan.bytes_toPeak, AxisSpan.bytes_still]
  | right => simp [Region.bytes, spans, AxisSpan.bytes_toPeak, AxisSpan.bytes_still]

theorem Region.reads (region : Region) : Reads (Cursor.repeated AxisSpan.read 2) region.bytes region.spans := by
  rw [region.bytes_eq]
  exact Reads.repeated_id fun span _ => span.reads

theorem StoredGroup.reads_row (row : List Int16) : Reads (readRow row.length 0) (row.flatMap int16) row := by
  have wide : Reads (Cursor.repeated Cursor.int16 row.length) (row.flatMap int16) row :=
    Reads.repeated_id fun delta _ => Reads.int16 delta
  have found : Reads (readRow row.length 0) (row.flatMap int16) (row ++ []) :=
    wide.bind_last ((Reads.pure []).bind_last (Reads.pure _))
  rwa [List.append_nil] at found

namespace DeltaGroup

/-- The group as a reader is to find it. -/
def stored (group : DeltaGroup) : StoredGroup := ⟨group.regions, group.regions.length, group.rows.toList⟩

theorem encode_of_fits {group : DeltaGroup} (fits : Fits count group) : ∃ bytes, group.encode = .ok bytes ∧
    bytes.length = group.byteSize ∧ Reads StoredGroup.read bytes group.stored := by
  have regionCount : count16 group.regions.length = .ok (.ofNat group.regions.length) :=
    if_pos (Nat.le_trans fits.narrow (by decide))
  have rowCount : count16 group.rows.size = .ok (.ofNat group.rows.size) := if_pos fits.counted
  have rowsRead : Reads (Cursor.repeated (StoredGroup.readRow group.regions.length 0) group.rows.toList.length)
      (group.rows.toList.flatMap fun row => row.flatMap int16) group.rows.toList := by
    apply Reads.repeated_id
    intro row member
    rw [← fits.aligned row (by simpa using member)]
    exact StoredGroup.reads_row row
  refine ⟨_, by simp only [encode, regionCount, rowCount]; rfl, ?_, ?_⟩
  · have rowLength : ∀ row ∈ group.rows.toList, (row.flatMap int16).length = group.regions.length * 2 := by
      intro row member
      rw [length_flatMap_of_forall 2 fun _ _ => int16_length _, fits.aligned row (by simpa using member)]
    simp only [List.length_append, word16_length, words16_length, length_flatMap_of_forall _ rowLength,
      Array.length_toList, byteSize]
    rw [Nat.mul_comm 2, Nat.mul_comm group.rows.size]
  · simp only [List.append_assoc]
    have regionNumber := (count16_eq_ok_iff.mp regionCount).2
    have rowNumber := (count16_eq_ok_iff.mp rowCount).2
    refine (Reads.word16 _).bind ((Reads.word16 _).bind ((Reads.word16 _).bind ?_))
    rw [regionNumber, rowNumber]
    refine (Reads.words16 group.regions).bind ?_
    rw [Nat.sub_self]
    exact rowsRead.bind_last (Reads.pure _)

end DeltaGroup

namespace DeltaSets

/-- Where the region table starts: behind the header and the position of each group. -/
def regionTableAt (sets : DeltaSets) : Nat := 8 + 4 * sets.groups.size

/-- Where a group starts: behind the region table and the groups before it. -/
def groupAt (sets : DeltaSets) (outer : Nat) : Nat :=
  sets.regionTableAt + 4 + 12 * sets.regions.length + ((sets.groups.toList.take outer).map DeltaGroup.byteSize).sum

theorem blocks_of_valid (valid : Valid sets) : ∃ blocks, sets.groups.toList.mapM DeltaGroup.encode = .ok blocks ∧
    blocks.map List.length = sets.groups.toList.map DeltaGroup.byteSize ∧
    List.Forall₂ (fun block group => Reads StoredGroup.read block (DeltaGroup.stored group)) blocks
      sets.groups.toList := by
  have fits : ∀ group ∈ sets.groups.toList, group.Fits sets.regions.length :=
    fun group member => valid.fits group (by simpa using member)
  generalize sets.groups.toList = groups at fits ⊢
  induction groups with
  | nil => exact ⟨[], rfl, rfl, .nil⟩
  | cons group groups ih =>
    obtain ⟨block, encoded, size, found⟩ := DeltaGroup.encode_of_fits (fits group List.mem_cons_self)
    obtain ⟨blocks, rest, sizes, each⟩ := ih fun other member => fits other (List.mem_cons_of_mem _ member)
    refine ⟨block :: blocks, ?_, by simp only [List.map_cons, size, sizes], .cons found each⟩
    rw [mapM_eq_ok_iff] at rest ⊢
    exact .cons encoded rest

theorem regionBytes_length (sets : DeltaSets) : sets.regionBytes.length = 12 * sets.regions.length := by
  rw [regionBytes, length_flatMap_of_forall 12, Nat.mul_comm]
  intro region _
  cases axis : region.axis <;> simp [Region.bytes, axis, Region.span, F2Dot14.bytes, int16_length]

theorem groupAt_zero (sets : DeltaSets) :
    sets.groupAt 0 = sets.regionTableAt + 4 + 12 * sets.regions.length := by simp [groupAt]

theorem getElem?_groupPositions (sets : DeltaSets) (outer : Nat) (inside : outer < sets.groups.size) :
    (positions (sets.groupAt 0) (sets.groups.toList.map DeltaGroup.byteSize))[outer]? = some (sets.groupAt outer) := by
  rw [getElem?_positions, List.length_map, Array.length_toList, if_pos inside, ← List.map_take, groupAt_zero, groupAt]

/-- A store is written unless a count or a position is too large for its field. -/
theorem encode_isOk_iff {sets : DeltaSets} (valid : sets.Valid) : (∃ bytes, sets.encode = .ok bytes) ↔
    sets.groups.size ≤ 65535 ∧ sets.regions.length ≤ 65535 ∧ sets.regionTableAt ≤ 4294967295 ∧
      ∀ outer < sets.groups.size, sets.groupAt outer ≤ 4294967295 := by
  obtain ⟨blocks, encoded, _⟩ := blocks_of_valid valid
  have table : 8 + 4 * sets.groups.toList.length = sets.regionTableAt := by
    rw [Array.length_toList, regionTableAt]
  simp only [encode, bind_eq_ok_iff, pure_eq_ok_iff, encoded, mapM_eq_ok_iff, table, ← groupAt_zero]
  constructor
  · rintro ⟨_, _, groupsCounted, _, tablePlaced, _, regionsCounted, words, placed, _⟩
    refine ⟨by simpa using (count16_eq_ok_iff.mp groupsCounted).1, (count16_eq_ok_iff.mp regionsCounted).1,
      (position32_eq_ok_iff.mp tablePlaced).1, ?_⟩
    intro outer inside
    have here := getElem?_groupPositions sets outer inside
    obtain ⟨word, _, fits⟩ := exists_of_forall₂ placed.flip (List.mem_of_getElem? here)
    exact (position32_eq_ok_iff.mp fits).1
  · rintro ⟨groupsCounted, regionsCounted, tablePlaced, placed⟩
    refine ⟨_, _, if_pos (by simpa using groupsCounted), _, if_pos tablePlaced, _, if_pos regionsCounted,
      (positions (sets.groupAt 0) (sets.groups.toList.map DeltaGroup.byteSize)).map UInt32.ofNat, ?_, _, rfl, rfl⟩
    rw [List.forall₂_map_right_iff, List.forall₂_same]
    intro position member
    obtain ⟨outer, here⟩ := List.mem_iff_getElem?.mp member
    have inside : outer < sets.groups.size := by
      have bound := (List.getElem?_eq_some_iff.mp here).1
      simpa [positions_length] using bound
    rw [getElem?_groupPositions sets outer inside] at here
    cases here
    exact if_pos (placed outer inside)

/-- Blocks read one after the other, each at its position; the last ends where the data does. -/
theorem readAt_blocks {read : ReadM ε α} {view : β → α} (front : List UInt8) {blocks : List (List UInt8)}
    {items : List β} {words : List UInt32}
    (placed : List.Forall₂ (fun position (word : UInt32) => word.toNat = position)
      (positions front.length (blocks.map List.length)) words)
    (found : List.Forall₂ (fun block item => Reads read block (view item)) blocks items) :
    ∃ results,
      words.mapM (fun word => (Scope.ofBytes (front ++ blocks.flatten)).readAt word.toNat read) = .ok results ∧
      results.map Prod.fst = items.map view ∧
      (results.getLast?.map Prod.snd).getD front.length = (front ++ blocks.flatten).length := by
  -- Each block read joins the front of the next; the end of the front is where the last one stopped.
  induction found generalizing front words with
  | nil =>
    cases placed
    exact ⟨[], rfl, rfl, by simp⟩
  | @cons block item blocks items here _ ih =>
    cases placed with
    | @cons _ word _ words atBlock placed =>
      have whole : front ++ (block :: blocks).flatten = front ++ block ++ blocks.flatten := by simp
      rw [← List.length_append] at placed
      obtain ⟨results, rest, values, ended⟩ := ih (front ++ block) placed
      have first : (Scope.ofBytes (front ++ block ++ blocks.flatten)).readAt word.toNat read =
          .ok (view item, (front ++ block).length) := by
        have stands : Stands (front ++ block ++ blocks.flatten) word.toNat block := ⟨front, _, rfl, atBlock.symm⟩
        rw [Stands.readAt (.ofBytes _) stands here, atBlock]
        simp [Scope.ofBytes]
      refine ⟨(view item, (front ++ block).length) :: results, ?_, by rw [List.map_cons, values, List.map_cons], ?_⟩
      · rw [whole]
        rw [mapM_eq_ok_iff] at rest ⊢
        exact .cons first rest
      · rw [whole, ← ended, List.getLast?_cons]
        cases results.getLast? <;> rfl

/-- The header: where the region table and each group are. -/
def header (tableWord : UInt32) (groupCount : UInt16) (groupWords : List UInt32) : List UInt8 :=
  word16 1 ++ (word32 tableWord ++ (word16 groupCount ++ groupWords.flatMap word32))

theorem header_length (groupWords : List UInt32) :
    (header tableWord groupCount groupWords).length = 8 + 4 * groupWords.length := by
  simp only [header, List.length_append, word16_length, word32_length,
    length_flatMap_of_forall 4 fun _ _ => word32_length _]
  omega

theorem reads_header (tableWord : UInt32) {groupWords : List UInt32} (counted : groupCount.toNat = groupWords.length) :
    Reads VariationStore.readHeader (header tableWord groupCount groupWords) (tableWord, groupWords) := by
  refine (Reads.step (Reads.word16 1)).bind ((Reads.step (Reads.word32 _)).bind
    ((Reads.step (Reads.word16 _)).bind ?_))
  rw [counted]
  exact (Reads.step (Reads.repeated_id fun word _ => Reads.word32 word)).bind_last (Reads.pure _)

def regionTable (sets : DeltaSets) (regionCount : UInt16) : List UInt8 :=
  word16 axisCount ++ (word16 regionCount ++ sets.regionBytes)

theorem regionTable_length (sets : DeltaSets) (regionCount : UInt16) :
    (sets.regionTable regionCount).length = 4 + 12 * sets.regions.length := by
  simp only [regionTable, List.length_append, word16_length, regionBytes_length]
  omega

theorem reads_regionTable {sets : DeltaSets} (counted : regionCount.toNat = sets.regions.length) :
    Reads VariationStore.readRegions (sets.regionTable regionCount) (axisCount, sets.regions.map Region.spans) := by
  refine (Reads.word16 _).bind ((Reads.word16 _).bind ?_)
  rw [counted]
  exact (Reads.repeated fun region _ => region.reads).bind_last (Reads.pure _)

/-- A store that was written reads back as the delta sets. -/
theorem read_encode {sets : DeltaSets} (valid : sets.Valid) (written : sets.encode = .ok bytes) :
    VariationStore.read bytes =
      .ok ⟨2, sets.regions.map Region.spans, sets.groups.toList.map DeltaGroup.stored, bytes.length⟩ := by
  obtain ⟨blocks, encoded, sizes, found⟩ := blocks_of_valid valid
  simp only [encode, bind_eq_ok_iff, pure_eq_ok_iff, encoded, mapM_eq_ok_iff, ← sizes] at written
  obtain ⟨groupCount, groupsCounted, tableWord, tablePlaced, regionCount, regionsCounted, groupWords, groupsPlaced, _,
    same, whole⟩ := written
  cases same
  have wordCount : groupWords.length = sets.groups.toList.length := by
    rw [← groupsPlaced.length_eq, positions_length, sizes, List.length_map]
  have headerRead := reads_header tableWord ((count16_eq_ok_iff.mp groupsCounted).2.trans wordCount.symm)
  have tableRead := Reads.step (reads_regionTable (count16_eq_ok_iff.mp regionsCounted).2)
  have tableAt : tableWord.toNat = (header tableWord groupCount groupWords).length := by
    rw [(position32_eq_ok_iff.mp tablePlaced).2, header_length, wordCount]
  -- What stands before the groups is kept under one name, so that positions count from its length.
  obtain ⟨front, isFront⟩ : ∃ front,
      front = header tableWord groupCount groupWords ++ sets.regionTable regionCount := ⟨_, rfl⟩
  have frontLength : front.length = 8 + 4 * sets.groups.toList.length + 4 + 12 * sets.regions.length := by
    rw [isFront, List.length_append, header_length, regionTable_length, wordCount, ← Nat.add_assoc]
  have parts : bytes = front ++ blocks.flatten := by
    simp only [← whole, isFront, header, regionTable, List.append_assoc]
  rw [← frontLength] at groupsPlaced
  have groupsAt := groupsPlaced.imp fun _ _ placed => (position32_eq_ok_iff.mp placed).2
  obtain ⟨results, groupsRead, values, ended⟩ := readAt_blocks front groupsAt (found.imp fun _ _ here => here.step)
  have headerStands : Stands bytes 0 (header tableWord groupCount groupWords) :=
    ⟨[], _, by rw [parts, isFront, List.append_assoc, List.nil_append], rfl⟩
  have tableStands : Stands bytes tableWord.toNat (sets.regionTable regionCount) :=
    ⟨_, _, by rw [parts, isFront], tableAt.symm⟩
  rw [← parts] at groupsRead ended
  have behind : 0 + tableWord.toNat + (sets.regionTable regionCount).length = front.length := by
    rw [tableAt, isFront, List.length_append, Nat.zero_add]
  simp only [VariationStore.read, bind_eq_ok_iff, pure_eq_ok_iff]
  refine ⟨_, Stands.readAt (.ofBytes bytes) headerStands headerRead, _,
    Stands.readAt (.ofBytes bytes) tableStands tableRead, results, groupsRead, ?_⟩
  simp only [Scope.ofBytes, behind, values, ended, axisCount]

theorem read_row? {sets : DeltaSets} (valid : sets.Valid) (written : sets.encode = .ok bytes)
    (decoded : VariationStore.read bytes = .ok store) (held : sets.Holds glyph limits deltas index) :
    ∃ row columns, store.row? index = some row ∧ row.Perm columns ∧
      List.Forall₂ (fun axisEnd column => ∃ peak, sets.peak glyph limits axisEnd.1 = .ok peak ∧
        column = (Region.spans ⟨axisEnd.1.axis, peak⟩, axisEnd.2)) (deltas.moving limits) columns := by
  rw [read_encode valid written, Except.ok.injEq] at decoded
  subst decoded
  obtain ⟨row, columns, recorded, same, carried⟩ := held
  have found := valid.indexed _ _ recorded
  simp only [row?, Option.bind_eq_some_iff, Option.map_eq_some_iff] at found
  obtain ⟨group, atOuter, stored, atInner, rfl⟩ := found
  rw [← Array.getElem?_toList] at atOuter atInner
  -- What a reader makes of a column of the delta sets.
  let view (column : Column) : List AxisSpan × Int :=
    ((sets.regions.map Region.spans).getD column.region.toNat [], column.delta.toInt)
  refine ⟨_, columns.map view, ?_, same.map view, ?_⟩
  · simp [VariationStore.row?, atOuter, DeltaGroup.stored, atInner, List.map_zipWith, view]
  · rw [List.forall₂_map_right_iff]
    refine carried.imp ?_
    rintro ⟨field, delta⟩ column ⟨peak, isPeak, atRegion, isDelta⟩
    refine ⟨peak, isPeak, ?_⟩
    simp only [view, List.getD_eq_getElem?_getD, List.getElem?_map, atRegion, Option.map_some, Option.getD_some,
      isDelta]

/-- Whatever was asked, met or not: the store can be written exactly when its counts and positions fit their fields, and
what is written reads back as two axes, the regions in the order of their numbers, and every group with its regions and
rows in their order, all deltas wide, up to the end of the data. -/
theorem store_decodes_to_delta_sets (normalized : Bool) (uniform : Option ElongationLimits)
    (requests : List Request) :
    let sets := serveAll { normalized, uniform } requests
    ((∃ bytes, sets.encode = .ok bytes) ↔
      sets.groups.size ≤ 65535 ∧ sets.regions.length ≤ 65535 ∧ sets.regionTableAt ≤ 4294967295 ∧
        ∀ outer < sets.groups.size, sets.groupAt outer ≤ 4294967295) ∧
    (∀ group ∈ sets.groups, group.rows.size ≤ 65535 ∧ (∀ row ∈ group.rows, row.length = group.regions.length) ∧
      ∀ region ∈ group.regions, region.toNat < sets.regions.length) ∧
    ∀ bytes, sets.encode = .ok bytes → VariationStore.read bytes =
      .ok ⟨2, sets.regions.map Region.spans, sets.groups.toList.map DeltaGroup.stored, bytes.length⟩ := by
  intro sets
  have valid : sets.Valid := (serveAll_grows (.initial normalized uniform) requests).1
  refine ⟨encode_isOk_iff valid, ?_, fun bytes written => read_encode valid written⟩
  intro group member
  have fits := valid.fits group member
  exact ⟨fits.counted, fits.aligned, fits.known⟩

/-- Two regions on the left axis and one on the right, in two groups; the last request is refused. -/
theorem store_decodes_to_delta_sets_of_two_glyphs :
    let sets := serveAll { normalized := false, uniform := none }
      [⟨"a", ⟨7, -3, 0, 0⟩, ⟨.negOne, .one, .zero, .zero⟩⟩, ⟨"b", ⟨0, 0, 9, 0⟩, ⟨.zero, .zero, .zero, .one⟩⟩,
        ⟨"a", ⟨40000, 0, 0, 0⟩, ⟨.negOne, .one, .zero, .zero⟩⟩]
    ∃ bytes, sets.encode = .ok bytes ∧ VariationStore.read bytes =
      .ok ⟨2, [[⟨⟨0⟩, ⟨16384⟩, ⟨16384⟩⟩, .still], [⟨⟨-16384⟩, ⟨-16384⟩, ⟨0⟩⟩, .still],
        [.still, ⟨⟨0⟩, ⟨16384⟩, ⟨16384⟩⟩]], [⟨[0, 1], 2, [[7, -3]]⟩, ⟨[2], 1, [[9]]⟩], bytes.length⟩ := by
  generalize isRequests : [Request.mk "a" ⟨7, -3, 0, 0⟩ ⟨.negOne, .one, .zero, .zero⟩,
    ⟨"b", ⟨0, 0, 9, 0⟩, ⟨.zero, .zero, .zero, .one⟩⟩,
    ⟨"a", ⟨40000, 0, 0, 0⟩, ⟨.negOne, .one, .zero, .zero⟩⟩] = requests
  intro sets
  have regions : sets.regions.map Region.spans = [[⟨⟨0⟩, ⟨16384⟩, ⟨16384⟩⟩, .still],
      [⟨⟨-16384⟩, ⟨-16384⟩, ⟨0⟩⟩, .still], [.still, ⟨⟨0⟩, ⟨16384⟩, ⟨16384⟩⟩]] := by
    subst isRequests
    decide +kernel
  have groups : sets.groups.toList.map DeltaGroup.stored = [⟨[0, 1], 2, [[7, -3]]⟩, ⟨[2], 1, [[9]]⟩] := by
    subst isRequests
    decide +kernel
  obtain ⟨writable, _, decoded⟩ := store_decodes_to_delta_sets false none requests
  obtain ⟨bytes, written⟩ := writable.mpr (by subst isRequests; decide +kernel)
  rw [← regions, ← groups]
  exact ⟨bytes, written, decoded bytes written⟩

end DeltaSets

end Kashida
