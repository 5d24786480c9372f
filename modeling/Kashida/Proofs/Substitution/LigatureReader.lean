import Kashida.Proofs.Tables
import Kashida.Substitution.Ligature

/-! Ligatures read back. The reader follows the published layout: a coverage of first components and the offset of a set
for each of them, where the ligatures of a set are found by offsets from the set. -/
namespace Kashida

/-- Grouping by distinct keys that occur for all values neither loses nor repeats a value. -/
theorem flatMap_filter_perm [DecidableEq κ] {keys : List κ} {values : List α} {key : α → κ} (distinct : keys.Nodup)
    (all : ∀ value ∈ values, key value ∈ keys) :
    (keys.flatMap fun each => values.filter fun value => key value == each).Perm values := by
  induction keys generalizing values with
  | nil =>
    have none : values = [] := List.eq_nil_iff_forall_not_mem.mpr fun value member => by cases all value member
    rw [none]
    exact .nil
  | cons first keys ih =>
    obtain ⟨fresh, distinct⟩ := List.nodup_cons.mp distinct
    let rest := values.filter fun value => !(key value == first)
    have later : ∀ value ∈ rest, key value ∈ keys := by
      intro value member
      obtain ⟨member, different⟩ := List.mem_filter.mp member
      refine (List.mem_cons.mp (all value member)).resolve_left ?_
      simpa using different
    have same : (keys.flatMap fun each => values.filter fun value => key value == each) =
        keys.flatMap fun each => rest.filter fun value => key value == each := by
      refine List.flatMap_congr fun each member => ?_
      rw [List.filter_filter]
      refine List.filter_congr fun value _ => ?_
      have different : each ≠ first := fun same => fresh (same ▸ member)
      by_cases here : key value = each <;> simp [here, different]
    rw [List.flatMap_cons, same]
    exact ((ih distinct later).append_left _).trans (List.filter_append_perm _ values)

/-- Ligatures as the bytes of a table describe them: the covered glyphs, and for each of them the ligatures that start
with it, each with all its components. -/
structure StoredLigatures where
  firsts : List GlyphId
  sets : List (List (GlyphId × List GlyphId))
deriving DecidableEq

namespace StoredLigatures

/-- The offset of the coverage and those of the sets. -/
def readHeader : ReadM ParseError (UInt16 × List UInt16) := do
  let format ← Cursor.step Cursor.word16
  if format = 1 then
    let coverageAt ← Cursor.step Cursor.word16
    let count ← Cursor.step Cursor.word16
    let offsets ← Cursor.step (Cursor.words16 count.toNat)
    return (coverageAt, offsets)
  else throw .badVersion

def readSetHeader : ReadM ParseError (List UInt16) := do
  let count ← Cursor.step Cursor.word16
  Cursor.step (Cursor.words16 count.toNat)

/-- The glyph of a ligature and its components after the first, which is counted but not stored. -/
def readLigature : ReadM ParseError (GlyphId × List GlyphId) := do
  let glyph ← Cursor.step Cursor.word16
  let count ← Cursor.step Cursor.word16
  Cursor.check (count ≠ 0)
  let rest ← Cursor.step (Cursor.words16 (count.toNat - 1))
  return (glyph, rest)

def readSet (scope : Scope) (offset : UInt16) : Except ParseError (List (GlyphId × List GlyphId)) := do
  let set ← scope.locateArray readSetHeader (fun set => set.locate readLigature) offset
  return set.table.map Located.table

/-- There must be a set for each covered glyph. -/
def read (scope : Scope) : Except ParseError StoredLigatures := do
  let ((coverageAt, offsets), _) ← scope.readAt 0 readHeader
  let (coverage, _) ← scope.readAt coverageAt.toNat Coverage.read
  let sets ← offsets.mapM (readSet scope)
  if sets.length = coverage.glyphs.length then
    return ⟨coverage.glyphs, coverage.glyphs.zipWith (fun first set =>
      set.map fun (glyph, rest) => (glyph, first :: rest)) sets⟩
  else throw .badValue

theorem reads_header {coverageAt count : UInt16} {offsets : List UInt16} (counted : count.toNat = offsets.length) :
    Reads readHeader (word16 1 ++ (word16 coverageAt ++ (word16 count ++ words16 offsets))) (coverageAt, offsets) := by
  refine (Reads.word16 1).step.bind ((Reads.word16 _).step.bind ((Reads.word16 _).step.bind ?_))
  rw [counted]
  exact (Reads.words16 offsets).step.bind_last (Reads.pure _)

end StoredLigatures

namespace LigatureSubstitution

/-- Where a ligature starts in its set: behind the count, the offsets and the ligatures before it. -/
def ligatureAt (set : List Ligature) (index : Nat) : Nat :=
  2 + 2 * set.length + ((set.take index).map fun ligature => 2 + 2 * ligature.components.length).sum

def setSize (set : List Ligature) : Nat := ligatureAt set set.length

/-- Where a set starts: behind the header, the coverage and the sets before it. -/
def setAt (table : LigatureSubstitution) (index : Nat) : Nat :=
  10 + 4 * table.sets.length + (((table.sets.map Prod.snd).take index).map setSize).sum

theorem encodeLigature_reads (written : encodeLigature ligature = .ok bytes) :
    bytes.length = 2 + 2 * ligature.components.length ∧
      Reads StoredLigatures.readLigature bytes (ligature.glyph, ligature.rest) := by
  simp only [encodeLigature, bind_eq_ok_iff, pure_eq_ok_iff] at written
  obtain ⟨count, counted, rfl⟩ := written
  have number : count.toNat = ligature.rest.length + 1 := (count16_eq_ok_iff.mp counted).2
  have nonzero : count ≠ 0 := by
    rintro rfl
    cases number
  constructor
  · simp only [List.length_append, word16_length, words16_length, Ligature.components, List.length_cons]
    omega
  · rw [List.append_assoc]
    refine (Reads.word16 _).step.bind ((Reads.word16 count).step.bind ((Reads.check (decide_eq_true nonzero)).bind ?_))
    rw [number, Nat.add_sub_cancel]
    exact (Reads.words16 _).step.bind_last (Reads.pure _)

theorem exists_encodeLigature_iff {ligature : Ligature} :
    (∃ bytes, encodeLigature ligature = .ok bytes) ↔ ligature.components.length ≤ 65535 := by
  simp only [encodeLigature, bind_eq_ok_iff, pure_eq_ok_iff]
  rw [← exists_count16_iff]
  constructor
  · rintro ⟨_, count, counted, _⟩
    exact ⟨count, counted⟩
  · rintro ⟨count, counted⟩
    exact ⟨_, count, counted, rfl⟩

theorem encodeSet_eq_ok_iff {set : List Ligature} : encodeSet set = .ok bytes ↔ ∃ count offsets blocks,
    count16 set.length = .ok count ∧
      List.Forall₂ (fun ligature block => encodeLigature ligature = .ok block) set blocks ∧
      List.Forall₂ (fun position offset => offset16 position = .ok offset)
        (DeltaSets.positions (2 + 2 * set.length) (blocks.map List.length)) offsets ∧
      word16 count ++ words16 offsets ++ blocks.flatten = bytes := by
  simp only [encodeSet, bind_eq_ok_iff, pure_eq_ok_iff, Prod.exists, placeBlocks_eq_ok_iff]
  constructor
  · rintro ⟨count, counted, offsets, _, ⟨blocks, each, placed, rfl⟩, whole⟩
    exact ⟨count, offsets, blocks, counted, each, placed, whole⟩
  · rintro ⟨count, offsets, blocks, counted, each, placed, whole⟩
    exact ⟨count, counted, offsets, _, ⟨blocks, each, placed, rfl⟩, whole⟩

theorem encodeSet_length {set : List Ligature} (written : encodeSet set = .ok bytes) : bytes.length = setSize set := by
  obtain ⟨count, offsets, blocks, _, each, placed, rfl⟩ := encodeSet_eq_ok_iff.mp written
  have sizes : blocks.map List.length = set.map fun ligature => 2 + 2 * ligature.components.length :=
    (map_eq_map_iff.mpr (each.imp fun ligature block encoded => (encodeLigature_reads encoded).1.symm)).symm
  have offsetCount : offsets.length = set.length := by
    rw [← placed.length_eq, positions_length, List.length_map, ← each.length_eq]
  rw [List.length_append, List.length_append, word16_length, words16_length, List.length_flatten, sizes, offsetCount,
    setSize, ligatureAt, List.take_length]
  omega

/-- A set reads back from an offset that leads to it. -/
theorem readSet_of_stands {set : List Ligature} {scope : Scope} {offset : UInt16}
    (written : encodeSet set = .ok block) (stands : Stands scope.data offset.toNat block) :
    StoredLigatures.readSet scope offset = .ok (set.map fun ligature => (ligature.glyph, ligature.rest)) := by
  obtain ⟨count, offsets, blocks, counted, each, placed, rfl⟩ := encodeSet_eq_ok_iff.mp written
  obtain ⟨back, isSet⟩ := stands.offset scope
  have offsetCount : offsets.length = set.length := by
    rw [← placed.length_eq, positions_length, List.length_map, ← each.length_eq]
  have headerLength : (word16 count ++ words16 offsets).length = 2 + 2 * set.length := by
    rw [List.length_append, word16_length, words16_length, offsetCount, Nat.mul_comm]
  have headerReads : Reads StoredLigatures.readSetHeader (word16 count ++ words16 offsets) offsets := by
    refine (Reads.word16 count).step.bind ?_
    rw [(count16_eq_ok_iff.mp counted).2, ← offsetCount]
    exact (Reads.words16 offsets).step
  have ligaturesRead : List.Forall₂ (Reads StoredLigatures.readLigature) blocks
      (set.map fun ligature => (ligature.glyph, ligature.rest)) := by
    rw [List.forall₂_map_right_iff]
    exact (each.imp fun ligature block encoded => (encodeLigature_reads encoded).2).flip
  rw [← headerLength] at placed
  obtain ⟨located, found, tables, _⟩ :=
    locate_blocks (scope.base + offset.toNat) (word16 count ++ words16 offsets) back placed ligaturesRead
  simp only [StoredLigatures.readSet, bind_eq_ok_iff, pure_eq_ok_iff]
  exact ⟨_, Scope.locateArray_eq isSet ⟨[], _, List.append_assoc .., rfl⟩ headerReads found, tables⟩

theorem exists_encodeSet_iff {set : List Ligature} : (∃ bytes, encodeSet set = .ok bytes) ↔ set.length ≤ 65535 ∧
    (∀ ligature ∈ set, ligature.components.length ≤ 65535) ∧ ∀ index < set.length, ligatureAt set index ≤ 65535 := by
  have blocks := exists_placeBlocks_iff encodeLigature (2 + 2 * set.length) set
    fun ligature block encoded => (encodeLigature_reads encoded).1
  simp only [exists_encodeLigature_iff] at blocks
  simp only [ligatureAt]
  rw [← exists_count16_iff, ← blocks]
  simp only [encodeSet, bind_eq_ok_iff, pure_eq_ok_iff]
  constructor
  · rintro ⟨_, count, counted, result, placed, _⟩
    exact ⟨⟨count, counted⟩, result, placed⟩
  · rintro ⟨⟨count, counted⟩, result, placed⟩
    exact ⟨_, count, counted, result, placed, rfl⟩

theorem sets_length (table : LigatureSubstitution) : table.sets.length = table.firsts.toList.length :=
  List.length_map ..

/-- The parts of a table that was written. -/
theorem encode_eq_ok_iff {table : LigatureSubstitution} : table.encode = .ok bytes ↔
    ∃ count coverageOffset coverage offsets blocks, count16 table.sets.length = .ok count ∧
      offset16 (6 + 2 * table.sets.length) = .ok coverageOffset ∧ (Coverage.ofSet table.firsts).encode = .ok coverage ∧
      List.Forall₂ (fun set block => encodeSet set = .ok block) (table.sets.map Prod.snd) blocks ∧
      List.Forall₂ (fun position offset => offset16 position = .ok offset)
        (DeltaSets.positions (10 + 4 * table.sets.length) (blocks.map List.length)) offsets ∧
      word16 1 ++ word16 coverageOffset ++ word16 count ++ words16 offsets ++ coverage ++ blocks.flatten = bytes := by
  have start : ∀ {coverage}, (Coverage.ofSet table.firsts).encode = .ok coverage →
      6 + 2 * table.sets.length + coverage.length = 10 + 4 * table.sets.length := by
    intro coverage encoded
    rw [(Coverage.encode_reads encoded).1, Coverage.size_ofSet, sets_length]
    omega
  simp only [encode, bind_eq_ok_iff, pure_eq_ok_iff, Prod.exists, placeBlocks_eq_ok_iff]
  constructor
  · rintro ⟨count, counted, coverageOffset, fits, coverage, covered, offsets, _, ⟨blocks, each, placed, rfl⟩, whole⟩
    rw [start covered] at placed
    exact ⟨count, coverageOffset, coverage, offsets, blocks, counted, fits, covered, each, placed, whole⟩
  · rintro ⟨count, coverageOffset, coverage, offsets, blocks, counted, fits, covered, each, placed, whole⟩
    rw [← start covered] at placed
    exact ⟨count, counted, coverageOffset, fits, coverage, covered, offsets, _, ⟨blocks, each, placed, rfl⟩, whole⟩

/-- The table reads back, whatever stands behind it. -/
theorem read_encode {table : LigatureSubstitution} (written : table.encode = .ok bytes) (origin : Nat)
    (back : List UInt8) : StoredLigatures.read ⟨origin, bytes ++ back⟩ = .ok ⟨table.firsts.toList,
      table.firsts.toList.map fun first =>
        (table.startingWith first).map fun ligature => (ligature.glyph, ligature.components)⟩ := by
  obtain ⟨count, coverageOffset, coverage, offsets, blocks, counted, fits, covered, each, placed, whole⟩ :=
    encode_eq_ok_iff.mp written
  obtain ⟨coverageLength, coverageReads⟩ := Coverage.encode_reads covered
  have offsetCount : offsets.length = table.sets.length := by
    rw [← placed.length_eq, positions_length, List.length_map, ← each.length_eq, List.length_map]
  obtain ⟨header, isHeader⟩ : ∃ header,
      header = word16 1 ++ (word16 coverageOffset ++ (word16 count ++ words16 offsets)) := ⟨_, rfl⟩
  have headerLength : header.length = 6 + 2 * table.sets.length := by
    simp only [isHeader, List.length_append, word16_length, words16_length, offsetCount]
    omega
  have frontLength : (header ++ coverage).length = 10 + 4 * table.sets.length := by
    rw [List.length_append, headerLength, coverageLength, Coverage.size_ofSet, sets_length]
    omega
  have headerReads : Reads StoredLigatures.readHeader header (coverageOffset, offsets) := by
    rw [isHeader]
    exact StoredLigatures.reads_header (by rw [(count16_eq_ok_iff.mp counted).2, offsetCount])
  have parts : bytes = header ++ coverage ++ blocks.flatten := by simp only [← whole, isHeader, List.append_assoc]
  have headerStands : Stands (bytes ++ back) 0 header :=
    ⟨[], _, by rw [parts, List.append_assoc, List.append_assoc, List.nil_append], rfl⟩
  have coverageStands : Stands (bytes ++ back) coverageOffset.toNat coverage :=
    ⟨header, _, by rw [parts, List.append_assoc _ _ back], by rw [headerLength, (offset16_eq_ok_iff.mp fits).2]⟩
  rw [← frontLength] at placed
  have blocksStand := stands_at_offsets (header ++ coverage) back placed
  rw [← parts] at blocksStand
  have setsRead : List.Forall₂ (fun offset set => StoredLigatures.readSet ⟨origin, bytes ++ back⟩ offset = .ok set)
      offsets ((table.sets.map Prod.snd).map fun set => set.map fun ligature => (ligature.glyph, ligature.rest)) := by
    rw [List.forall₂_map_right_iff]
    refine forall₂_trans ?_ blocksStand each.flip
    intro offset block set stands encoded
    exact readSet_of_stands encoded stands
  simp only [StoredLigatures.read, bind_eq_ok_iff, mapM_eq_ok_iff]
  refine ⟨_, Stands.readAt ⟨origin, _⟩ headerStands headerReads, _,
    Stands.readAt ⟨origin, _⟩ coverageStands coverageReads, _, setsRead, ?_⟩
  rw [if_pos (by rw [List.length_map, List.length_map, sets_length]; rfl), pure_eq_ok_iff]
  -- The first component of a ligature is not stored with it, but it is that of its set.
  have components : ∀ first, ((table.startingWith first).map fun ligature => (ligature.glyph, first :: ligature.rest)) =
      (table.startingWith first).map fun ligature => (ligature.glyph, ligature.components) := by
    intro first
    refine List.map_congr_left fun ligature member => ?_
    have same : ligature.first = first := eq_of_beq (List.mem_filter.mp member).2
    rw [← same]
    rfl
  simp only [sets, Coverage.ofSet, List.map_map, List.zipWith_map_right, List.zipWith_self, Function.comp_def,
    components]

theorem exists_encode_iff {table : LigatureSubstitution} : (∃ bytes, table.encode = .ok bytes) ↔
    table.sets.length ≤ 65535 ∧
    (∀ set ∈ table.sets, set.2.length ≤ 65535 ∧ (∀ ligature ∈ set.2, ligature.components.length ≤ 65535) ∧
      ∀ index < set.2.length, ligatureAt set.2 index ≤ 65535) ∧
    ∀ index < table.sets.length, table.setAt index ≤ 65535 := by
  have placing := exists_placeBlocks_iff encodeSet (10 + 4 * table.sets.length) (table.sets.map Prod.snd)
    fun set block encoded => encodeSet_length encoded
  simp only [exists_encodeSet_iff, List.forall_mem_map, List.length_map] at placing
  simp only [setAt]
  rw [← placing, ← exists_count16_iff]
  constructor
  · rintro ⟨_, written⟩
    obtain ⟨count, _, _, offsets, blocks, counted, _, _, each, placed, _⟩ := encode_eq_ok_iff.mp written
    exact ⟨⟨count, counted⟩, (offsets, _), placeBlocks_eq_ok_iff.mpr ⟨blocks, each, placed, rfl⟩⟩
  · rintro ⟨⟨count, counted⟩, ⟨offsets, bytes⟩, success⟩
    have reached := (placing.mp ⟨_, success⟩).2
    obtain ⟨blocks, each, placed, rfl⟩ := placeBlocks_eq_ok_iff.mp success
    have few := (count16_eq_ok_iff.mp counted).1
    obtain ⟨coverage, covered⟩ := Coverage.exists_encode_ofSet_iff.mpr (table.sets_length ▸ few)
    -- The coverage is closer than the first set.
    have close : 6 + 2 * table.sets.length ≤ 65535 := by
      rcases Nat.eq_zero_or_pos table.sets.length with none | some
      · omega
      · have first := reached 0 some
        omega
    obtain ⟨coverageOffset, fits⟩ := exists_offset16_iff.mpr close
    exact ⟨_, encode_eq_ok_iff.mpr ⟨count, coverageOffset, coverage, offsets, blocks, counted, fits, covered, each,
      placed, rfl⟩⟩

/-- An entry of a rule names a ligature and all its components. -/
def Names (font : Font) (entry : String × List String) (ligature : Ligature) : Prop :=
  font.glyphId entry.1 = .ok ligature.glyph ∧
    List.Forall₂ (fun name glyph => font.glyphId name = .ok glyph) entry.2 ligature.components

theorem ofRule_names {font : Font} {rule : SequenceRule} (populated : ofRule font rule = .ok table) :
    List.Forall₂ (Names font) (rule.filter fun entry => !entry.2.isEmpty) table.ligatures := by
  fun_induction ofRule font rule generalizing table with
  | case1 =>
    cases populated
    exact .nil
  | case2 glyph rule ih => exact ih populated
  | case3 glyph first rest rule ih =>
    simp only [bind_eq_ok_iff, pure_eq_ok_iff, mapM_eq_ok_iff] at populated
    obtain ⟨head, isHead, tail, isTail, made, isMade, others, populated, rfl⟩ := populated
    exact .cons ⟨isMade, .cons isHead isTail⟩ (ih populated)

end LigatureSubstitution

/-- What the bytes of ligatures say. Every entry of a rule that has components is a ligature, in the order of the rule.
The coverage lists their first components in ascending order, and the set of each of these has exactly the ligatures
that start with it, in the order of the rule, so that none is lost or repeated. Only if an offset or a count has more
than 16 bits are there no bytes. -/
theorem LigatureSubstitution.encoded_ligatures_read_back (font : Font) (rule : SequenceRule)
    (table : LigatureSubstitution) (populated : ofRule font rule = .ok table) :
    List.Forall₂ (Names font) (rule.filter fun entry => !entry.2.isEmpty) table.ligatures ∧
    (∀ bytes, table.encode = .ok bytes → ∃ stored, StoredLigatures.read (.ofBytes bytes) = .ok stored ∧
      stored.firsts.Pairwise (· < ·) ∧
      (∀ glyph, glyph ∈ stored.firsts ↔ ∃ ligature ∈ table.ligatures, ligature.first = glyph) ∧
      stored.sets = stored.firsts.map (fun glyph => (table.ligatures.filter fun ligature => ligature.first == glyph).map
        fun ligature => (ligature.glyph, ligature.components)) ∧
      stored.sets.flatten.Perm (table.ligatures.map fun ligature => (ligature.glyph, ligature.components))) ∧
    ((∃ error, table.encode = .error error) ↔
      (∃ index < table.sets.length, 65535 < table.setAt index) ∨
      (∃ set ∈ table.sets, ∃ index < set.2.length, 65535 < ligatureAt set.2 index) ∨
      65535 < table.sets.length ∨ (∃ set ∈ table.sets, 65535 < set.2.length) ∨
      ∃ set ∈ table.sets, ∃ ligature ∈ set.2, 65535 < ligature.components.length) := by
  refine ⟨ofRule_names populated, ?_, ?_⟩
  · intro bytes written
    have isRead := read_encode written 0 []
    rw [List.append_nil] at isRead
    have first : ∀ glyph, glyph ∈ table.firsts.toList ↔ ∃ ligature ∈ table.ligatures, ligature.first = glyph :=
      fun glyph => GlyphSet.mem_ofList.trans List.mem_map
    refine ⟨_, isRead, table.firsts.ascending, first, rfl, ?_⟩
    rw [← List.flatMap_def, ← List.map_flatMap]
    refine List.Perm.map _ (flatMap_filter_perm ?_ fun ligature member => (first _).mpr ⟨ligature, member, rfl⟩)
    exact table.firsts.ascending.imp fun less => UInt16.ne_of_lt less
  · have failure : (∃ error, table.encode = .error error) ↔ ¬∃ bytes, table.encode = .ok bytes := by
      cases table.encode <;> simp
    rw [failure, exists_encode_iff]
    simp only [not_and_or, not_forall, Nat.not_le, exists_prop, and_or_left, exists_or]
    constructor
    · rintro (many | (large | long | far) | beyond)
      · exact .inr (.inr (.inl many))
      · exact .inr (.inr (.inr (.inl large)))
      · exact .inr (.inr (.inr (.inr long)))
      · exact .inr (.inl far)
      · exact .inl beyond
    · rintro (beyond | far | many | large | long)
      · exact .inr (.inr beyond)
      · exact .inr (.inl (.inr (.inr far)))
      · exact .inl many
      · exact .inr (.inl (.inl large))
      · exact .inr (.inl (.inr (.inl long)))

/-- Names for three ligatures that start with two glyphs. -/
def ligatureFont : Font where
  glyphs := .ofList [("alef", 3), ("lam", 4), ("meem", 5), ("lamAlef", 9), ("alefLam", 8), ("lamMeem", 7)]

def ligatureRule : SequenceRule :=
  [("lamAlef", ["lam", "alef"]), ("alefLam", ["alef", "lam"]), ("meem", []), ("lamMeem", ["lam", "meem", "alef"])]

/-- The two first components are met in turn, and one entry has no components. -/
theorem LigatureSubstitution.encoded_ligatures_read_back_in_turn : ∃ table bytes stored,
    ofRule ligatureFont ligatureRule = .ok table ∧ table.encode = .ok bytes ∧
    StoredLigatures.read (.ofBytes bytes) = .ok stored ∧ stored.firsts.Pairwise (· < ·) ∧
    (∀ glyph, glyph ∈ stored.firsts ↔ glyph = 3 ∨ glyph = 4) ∧
    stored.sets.flatten.Perm [(9, [4, 3]), (8, [3, 4]), (7, [4, 5, 3])] := by
  have populated : ofRule ligatureFont ligatureRule = .ok ⟨[⟨9, 4, [3]⟩, ⟨8, 3, [4]⟩, ⟨7, 4, [5, 3]⟩]⟩ := by
    decide +kernel
  have succeeds : (encode ⟨[⟨9, 4, [3]⟩, ⟨8, 3, [4]⟩, ⟨7, 4, [5, 3]⟩]⟩).isOk = true := by decide +kernel
  obtain ⟨bytes, written⟩ := exists_of_isOk succeeds
  obtain ⟨stored, isRead, ascending, first, _, same⟩ :=
    (encoded_ligatures_read_back ligatureFont ligatureRule _ populated).2.1 bytes written
  refine ⟨_, bytes, stored, populated, written, isRead, ascending, fun glyph => (first glyph).trans ?_, same⟩
  constructor
  · rintro ⟨ligature, member, rfl⟩
    revert ligature
    decide
  · rintro (rfl | rfl)
    · exact ⟨⟨8, 3, [4]⟩, by decide, rfl⟩
    · exact ⟨⟨9, 4, [3]⟩, by decide, rfl⟩

end Kashida
