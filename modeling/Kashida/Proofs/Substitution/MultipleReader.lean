import Kashida.Proofs.Bytes.Fitting
import Kashida.Proofs.Substitution.LigatureReader
import Kashida.Proofs.Tables.CoveredArray
import Kashida.Substitution.Multiple

/-! One-to-many substitutions read back. The reader follows the published layout: a coverage and, for each covered
glyph, the offset of the sequence that replaces it. -/
namespace Kashida

namespace StoredSequences

def readSequence : ReadM ParseError (List GlyphId) := do
  let count ← Cursor.step Cursor.word16
  Cursor.step (Cursor.words16 count.toNat)

/-- The header is that of ligatures; its offsets lead to the sequences. -/
def read (scope : Scope) : Except ParseError (CoveredArray (Located (List GlyphId))) := do
  let array ← CoveredArray.read StoredLigatures.readHeader scope
  let sequences ← array.values.mapM (scope.locate readSequence)
  return ⟨array.coverageAt, array.glyphs, sequences⟩

end StoredSequences

namespace MultipleSubstitution

open StoredSequences

/-- The sequences in the order of their glyphs. -/
def ordered (table : MultipleSubstitution) : List (List GlyphId) := table.sequences.toList.map Prod.snd

/-- Where a sequence starts: behind the header, the coverage and the sequences before it. -/
def sequenceAt (table : MultipleSubstitution) (index : Nat) : Nat :=
  10 + 4 * table.sequences.size + ((table.ordered.take index).map fun sequence => 2 + 2 * sequence.length).sum

/-- The numbers that need 16 bits, in the order in which they are written: the count of the entries, the offset of the
coverage, and for each sequence its offset and its count. -/
def fields (table : MultipleSubstitution) : List (WriteError × Nat) :=
  [(.badValue, table.sequences.size)] ++ ([(.offsetOverflow, 6 + 2 * table.sequences.size)] ++
    table.ordered.zipIdx.flatMap fun entry =>
      [(.offsetOverflow, table.sequenceAt entry.2), (.badValue, entry.1.length)])

theorem ordered_length (table : MultipleSubstitution) : table.ordered.length = table.sequences.size := by
  rw [ordered, List.length_map, Std.TreeMap.length_toList]

theorem encodeSequence_reads {sequence : List GlyphId} (written : encodeSequence sequence = .ok bytes) :
    bytes.length = 2 + 2 * sequence.length ∧ Reads readSequence bytes sequence := by
  simp only [encodeSequence, bind_eq_ok_iff, pure_eq_ok_iff] at written
  obtain ⟨count, counted, rfl⟩ := written
  constructor
  · rw [List.length_append, word16_length, words16_length, Nat.mul_comm]
  · refine (Reads.word16 count).step.bind ?_
    rw [(count16_eq_ok_iff.mp counted).2]
    exact (Reads.words16 sequence).step

theorem encodeSequence_checks (sequence : List GlyphId) :
    Checks (encodeSequence sequence) [(.badValue, sequence.length)] :=
  (Checks.count _).bind_last fun _ _ => ⟨_, rfl⟩

theorem coverage_end {table : MultipleSubstitution}
    (covered : (Coverage.mk table.sequences.keys).encode = .ok coverage) :
    6 + 2 * table.sequences.size + coverage.length = 10 + 4 * table.sequences.size := by
  rw [(Coverage.encode_reads covered).1, Coverage.size_keys]
  omega

/-- The first number that does not fit decides how writing fails. -/
theorem encode_checks (table : MultipleSubstitution) : Checks table.encode table.fields := by
  simp only [encode, Std.TreeMap.length_toList, Coverage.ofList_keys]
  refine (Checks.count _).bind fun count counted => (Checks.offset _).bind fun coverageOffset _ => ?_
  obtain ⟨coverage, covered⟩ := Coverage.exists_encode_keys (count16_eq_ok_iff.mp counted).1
  have placing := Checks.placeBlocks (fun _ _ written => (encodeSequence_reads written).1) encodeSequence_checks
    (10 + 4 * table.sequences.size) table.ordered
  rw [covered]
  show Checks (placeBlocks encodeSequence (6 + 2 * table.sequences.size + coverage.length) table.ordered >>= _) _
  rw [coverage_end covered]
  exact placing.bind_last fun _ _ => ⟨_, rfl⟩

/-- The table reads back, and every sequence is found where it starts. -/
theorem read_encode {table : MultipleSubstitution} (written : table.encode = .ok bytes) :
    ∃ stored, StoredSequences.read (.ofBytes bytes) = .ok stored ∧
      stored.Represents (fun _ sequence located => located.table = sequence) table.sequences ∧
      stored.values.map Located.start = (List.range table.sequences.size).map table.sequenceAt := by
  simp only [encode, Std.TreeMap.length_toList, Coverage.ofList_keys, bind_eq_ok_iff, pure_eq_ok_iff, Prod.exists,
    placeBlocks_eq_ok_iff] at written
  obtain ⟨count, counted, coverageOffset, fits, coverage, covered, offsets, _, ⟨blocks, each, placed, rfl⟩, whole⟩ :=
    written
  rw [coverage_end covered] at placed
  have offsetCount : offsets.length = table.sequences.size := by
    rw [← placed.length_eq, positions_length, List.length_map, ← each.length_eq, List.length_map,
      Std.TreeMap.length_toList]
  obtain ⟨header, isHeader⟩ : ∃ header,
      header = word16 1 ++ (word16 coverageOffset ++ (word16 count ++ words16 offsets)) := ⟨_, rfl⟩
  have headerReads : Reads StoredLigatures.readHeader header (coverageOffset, offsets) := by
    rw [isHeader]
    exact StoredLigatures.reads_header (by rw [(count16_eq_ok_iff.mp counted).2, offsetCount])
  have headerLength : header.length = coverageOffset.toNat := by
    simp only [isHeader, List.length_append, word16_length, words16_length, offsetCount, (offset16_eq_ok_iff.mp fits).2]
    omega
  have frontLength : (header ++ coverage).length = 10 + 4 * table.sequences.size := by
    rw [List.length_append, headerLength, (offset16_eq_ok_iff.mp fits).2, coverage_end covered]
  have parts : bytes = header ++ coverage ++ blocks.flatten := by simp only [← whole, isHeader, List.append_assoc]
  have arrayRead := CoveredArray.read_eq headerReads headerLength covered
    (by rw [offsetCount, Std.TreeMap.length_keys]) 0 blocks.flatten
  rw [← parts] at arrayRead
  have sequencesRead : List.Forall₂ (Reads readSequence) blocks (table.sequences.toList.map Prod.snd) :=
    (each.imp fun sequence block encoded => (encodeSequence_reads encoded).2).flip
  rw [← frontLength] at placed
  obtain ⟨located, found, tables, _⟩ := locate_blocks 0 (header ++ coverage) [] placed sequencesRead
  rw [List.append_nil, ← parts] at found
  refine ⟨⟨coverageOffset, table.sequences.keys, located⟩, ?_, ?_, ?_⟩
  · simp only [StoredSequences.read, bind_eq_ok_iff, pure_eq_ok_iff, mapM_eq_ok_iff]
    exact ⟨_, arrayRead, located, found, rfl⟩
  · exact CoveredArray.represents_of_toList (map_eq_map_iff.mp tables).flip coverageOffset
  · have sizes : blocks.map List.length = table.ordered.map fun sequence => 2 + 2 * sequence.length :=
      (map_eq_map_iff.mpr (each.imp fun sequence block encoded => (encodeSequence_reads encoded).1.symm)).symm
    rw [Scope.starts_of_locate placed found, frontLength, sizes, positions_eq_map, List.length_map, ordered_length,
      List.map_map]
    refine List.map_congr_left fun index _ => ?_
    rw [Function.comp_apply, Nat.zero_add, sequenceAt, List.map_take]

end MultipleSubstitution

/-- What the bytes of one-to-many substitutions say. A table is written exactly if no sequence and no map is too long to
count, and the coverage and all sequences start within reach of 16-bit offsets; otherwise the first number that does not
fit decides how writing fails. The bytes read back as the map: the coverage ascends, and the offset of each covered
glyph leads to its sequence. -/
theorem MultipleSubstitution.encoded_sequences_read_back (table : MultipleSubstitution) :
    ((∃ bytes, table.encode = .ok bytes) ↔ (∀ sequence ∈ table.ordered, sequence.length ≤ 65535) ∧
      table.sequences.size ≤ 65535 ∧ 6 + 2 * table.sequences.size ≤ 65535 ∧
      ∀ index < table.sequences.size, table.sequenceAt index ≤ 65535) ∧
    (∀ bytes, table.encode = .ok bytes → ∃ stored, StoredSequences.read (.ofBytes bytes) = .ok stored ∧
      stored.Represents (fun _ sequence located => located.table = sequence) table.sequences ∧
      stored.values.map Located.start = (List.range table.sequences.size).map table.sequenceAt) ∧
    ∀ error, table.encode = .error error ↔ firstExcess table.fields = some error := by
  refine ⟨?_, fun bytes written => read_encode written, table.encode_checks⟩
  rw [table.encode_checks.exists_ok_iff]
  have listed : ∀ entry : List GlyphId × Nat, entry ∈ table.ordered.zipIdx ↔ table.ordered[entry.2]? = some entry.1 :=
    fun entry => List.mem_zipIdx_iff_getElem?
  simp only [fields, List.forall_mem_append, List.forall_mem_flatMap, List.forall_mem_cons, listed, Prod.forall]
  constructor
  · rintro ⟨⟨few, _⟩, ⟨near, _⟩, each⟩
    refine ⟨?_, few, near, ?_⟩
    · intro sequence member
      obtain ⟨index, found⟩ := List.mem_iff_getElem?.mp member
      exact (each sequence index found).2.1
    · intro index inside
      rw [← table.ordered_length] at inside
      exact (each _ index (List.getElem?_eq_getElem inside)).1
  · rintro ⟨short, few, near, reached⟩
    refine ⟨⟨few, by simp⟩, ⟨near, by simp⟩, fun sequence index found => ⟨?_, short sequence ?_, by simp⟩⟩
    · apply reached
      rw [← table.ordered_length]
      exact (List.getElem?_eq_some_iff.mp found).1
    · exact List.mem_of_getElem? found

end Kashida
