import Kashida.Proofs.Overriding
import Kashida.Proofs.Tables.Coverage
import Kashida.Proofs.Tables.CoveredArray
import Kashida.Substitution.Single

/-! Single substitutions read back, in all three formats. The reader follows the layout of each format: a number, the
offset of the coverage, and records that differ in what they hold beside the substitute. -/
namespace Kashida

/-- A record of a substitution table, in each of the formats. -/
inductive StoredSubstitute where
  | plain (glyph : GlyphId)
  | tatweel (glyph : GlyphId) (left right : Fixed)
  | expansion (glyph : GlyphId) (minLeft maxLeft minRight maxRight : Fixed) (weight : UInt16) (flags : UInt32)
deriving DecidableEq

namespace StoredSubstitute

def formatOf? (number : UInt16) : Option SingleFormat :=
  [SingleFormat.plain, .tatweel, .expansion].find? fun format => format.number == number

def readFixed : ReadM ParseError Fixed := do
  let raw ← Cursor.step Cursor.word32
  return ⟨raw.toInt32⟩

def readRecord : SingleFormat → ReadM ParseError StoredSubstitute
  | .plain => do
      let glyph ← Cursor.step Cursor.word16
      return .plain glyph
  | .tatweel => do
      let glyph ← Cursor.step Cursor.word16
      let left ← readFixed
      let right ← readFixed
      return .tatweel glyph left right
  | .expansion => do
      let glyph ← Cursor.step Cursor.word16
      let minLeft ← readFixed
      let maxLeft ← readFixed
      let minRight ← readFixed
      let maxRight ← readFixed
      let weight ← Cursor.step Cursor.word16
      let flags ← Cursor.step Cursor.word32
      return .expansion glyph minLeft maxLeft minRight maxRight weight flags

/-- The offset of the coverage and the records. -/
def readArray : ReadM ParseError (UInt16 × List StoredSubstitute) := do
  let number ← Cursor.step Cursor.word16
  match formatOf? number with
  | some format =>
      let coverageAt ← Cursor.step Cursor.word16
      let count ← Cursor.step Cursor.word16
      let records ← Cursor.repeated (readRecord format) count.toNat
      return (coverageAt, records)
  | none => throw .badVersion

def read : Scope → Except ParseError (CoveredArray StoredSubstitute) := CoveredArray.read readArray

theorem reads_fixed (value : Fixed) : Reads readFixed value.bytes value := by
  have found : Reads readFixed value.bytes ⟨value.raw.toUInt32.toInt32⟩ :=
    (Reads.word32 value.raw.toUInt32).step.bind_last (Reads.pure _)
  rwa [Int32.toInt32_toUInt32] at found

/-- Encoded size of a record. -/
def size : SingleFormat → Nat
  | .plain => 2
  | .tatweel => 10
  | .expansion => 24

theorem reads_array {format : SingleFormat} {coverageAt count : UInt16} {records : List (List UInt8)}
    {values : List StoredSubstitute} (each : List.Forall₂ (Reads (readRecord format)) records values)
    (counted : count.toNat = records.length) :
    Reads readArray (word16 format.number ++ word16 coverageAt ++ word16 count ++ records.flatten)
      (coverageAt, values) := by
  have formatted : formatOf? format.number = some format := by cases format <;> decide
  have body : Reads (Cursor.repeated (readRecord format) count.toNat) records.flatten values := by
    rw [counted]
    clear counted
    induction each with
    | nil => exact Reads.pure []
    | cons here _ ih => exact here.bind (ih.bind_last (Reads.pure _))
  rw [List.append_assoc, List.append_assoc]
  refine (Reads.word16 format.number).step.bind ?_
  rw [formatted]
  exact (Reads.word16 coverageAt).step.bind ((Reads.word16 count).step.bind (body.bind_last (Reads.pure _)))

end StoredSubstitute

/-- A glyph at an elongation: the glyph itself where both values are zero, and otherwise what its shape there draws. -/
def Font.Draws (font : Font) (glyph : GlyphId) (left right : Binary64) (drawn : GlyphId) : Prop :=
  if left.isZero && right.isZero then drawn = glyph
  else ∃ shape, font.shapes glyph left right = some shape ∧ shape.glyph = drawn

/-- What a field says of an elongation of a glyph: the value as it stands, or its share of the bound on its side of
zero. -/
def Font.Expresses (font : Font) (glyph : GlyphId) (axis : Axis) (value : Binary64) (field : Fixed) : Prop :=
  if font.options.normalized then ∃ name, font.glyphName glyph = .ok name ∧
    Fixed.ofRounded? (normalize value (font.limits.scaleBound
      (if value < .zero then axis.minimum else axis.maximum) (font.limits.getOrZero name))) = some field
  else Fixed.ofRounded? (.finite value) = some field

namespace SingleEntry

/-- The glyph that replaces another where no values are written: the substitute, drawn at its least values for tatweel
and at its greatest for expansion. -/
def Becomes (font : Font) (format : SingleFormat) (entry : SingleEntry) (drawn : GlyphId) : Prop :=
  match format with
  | .plain => drawn = entry.substitute
  | .tatweel => font.Draws entry.substitute entry.expansion.minLeft entry.expansion.minRight drawn
  | .expansion => font.Draws entry.substitute entry.expansion.maxLeft entry.expansion.maxRight drawn

/-- The flags of a record: three bits for the kind of ligature and one each for absolute stretch and shrink. -/
structure Flagged (expansion : Expansion) (flags : UInt32) : Prop where
  ligature : flags.toNat % 8 = expansion.startEndLigature.toNat % 8
  stretch : flags.toNat.testBit 3 = expansion.stretchIsAbsolute
  shrink : flags.toNat.testBit 4 = expansion.shrinkIsAbsolute
  others : flags.toNat < 32

/-- What a record with values says of an entry. -/
inductive Describes (font : Font) (entry : SingleEntry) : SingleFormat → StoredSubstitute → Prop
  | tatweel (left : font.Expresses entry.substitute .left entry.expansion.minLeft leftField)
      (right : font.Expresses entry.substitute .right entry.expansion.minRight rightField) :
      Describes font entry .tatweel (.tatweel entry.substitute leftField rightField)
  | expansion (minLeft : font.Expresses entry.substitute .left entry.expansion.minLeft minLeftField)
      (maxLeft : font.Expresses entry.substitute .left entry.expansion.maxLeft maxLeftField)
      (minRight : font.Expresses entry.substitute .right entry.expansion.minRight minRightField)
      (maxRight : font.Expresses entry.substitute .right entry.expansion.maxRight maxRightField)
      (flagged : Flagged entry.expansion flags) :
      Describes font entry .expansion (.expansion entry.substitute minLeftField maxLeftField minRightField maxRightField
        entry.expansion.weight flags)

theorem flagged_flags (expansion : Expansion) : Flagged expansion expansion.flags := by
  have bits : ∀ kind < 8, ∀ stretch shrink : Bool,
      let number := kind + Expansion.flagBit stretch 3 + Expansion.flagBit shrink 4
      number % 8 = kind ∧ number.testBit 3 = stretch ∧ number.testBit 4 = shrink ∧ number < 32 := by decide
  obtain ⟨ligature, stretch, shrink, others⟩ := bits (expansion.startEndLigature.toNat % 8) (Nat.mod_lt _ (by decide))
    expansion.stretchIsAbsolute expansion.shrinkIsAbsolute
  have number : expansion.flags.toNat = expansion.startEndLigature.toNat % 8 +
      Expansion.flagBit expansion.stretchIsAbsolute 3 + Expansion.flagBit expansion.shrinkIsAbsolute 4 := by
    rw [Expansion.flags, UInt32.toNat_ofNat']
    omega
  rw [← number] at ligature stretch shrink others
  exact ⟨ligature, stretch, shrink, others⟩

end SingleEntry

namespace ElongationScale

theorem fixed_eq_ok_iff {value : Rounded} {field : Fixed} :
    (Fixed.ofRounded value).mapError CompileError.write = .ok field ↔ Fixed.ofRounded? value = some field := by
  rw [mapError_eq_ok_iff, Fixed.ofRounded]
  cases Fixed.ofRounded? value <;> simp

theorem expresses_of_encode {font : Font} {glyph : GlyphId} {scale : ElongationScale} {field : LimitField}
    {low high value : Binary64} {written : Fixed} (named : ofGlyph font glyph = .ok scale)
    (encoded : scale.encode field low high value = .ok written) :
    font.Expresses glyph field.axis value written := by
  simp only [ofGlyph, bind_eq_ok_iff, pure_eq_ok_iff] at named
  obtain ⟨name, named, rfl⟩ := named
  unfold encode at encoded
  unfold Font.Expresses
  by_cases normalized : font.options.normalized = true
  · rw [if_pos normalized] at encoded ⊢
    split at encoded
    · cases encoded
    · split at encoded
      · cases encoded
      · exact ⟨name, named, fixed_eq_ok_iff.mp encoded⟩
  · rw [if_neg normalized] at encoded ⊢
    exact fixed_eq_ok_iff.mp encoded

theorem expresses_of_value {font : Font} {glyph : GlyphId} {scale : ElongationScale} {field : LimitField}
    {value : Binary64} {written : Fixed} (named : ofGlyph font glyph = .ok scale)
    (encoded : scale.value field value = .ok written) : font.Expresses glyph field.axis value written :=
  expresses_of_encode named encoded

theorem expresses_of_limit {font : Font} {glyph : GlyphId} {scale : ElongationScale} {field : LimitField}
    {value : Binary64} {written : Fixed} (named : ofGlyph font glyph = .ok scale)
    (encoded : scale.limit field value = .ok written) : font.Expresses glyph field.axis value written := by
  unfold limit at encoded
  split at encoded
  · exact expresses_of_encode named encoded
  · exact expresses_of_encode named encoded

end ElongationScale

namespace SingleSubstitution

open StoredSubstitute

/-- A record with values has the size of its format and reads back as a description of its entry. -/
theorem encodeEntry_reads {font : Font} {format : SingleFormat} {entry : SingleEntry} (extended : format ≠ .plain)
    (written : encodeEntry font format entry = .ok bytes) : bytes.length = StoredSubstitute.size format ∧
      ∃ record, Reads (readRecord format) bytes record ∧ entry.Describes font format record := by
  simp only [encodeEntry, bind_eq_ok_iff, resolve_eq_ok_iff] at written
  obtain ⟨scale, named, written⟩ := written
  cases format with
  | plain => exact absurd rfl extended
  | tatweel =>
    simp only [bind_eq_ok_iff, pure_eq_ok_iff] at written
    obtain ⟨left, hasLeft, right, hasRight, rfl⟩ := written
    have leftField := ElongationScale.expresses_of_value named hasLeft
    have rightField := ElongationScale.expresses_of_value named hasRight
    refine ⟨rfl, .tatweel entry.substitute left right, ?_, .tatweel leftField rightField⟩
    rw [List.append_assoc]
    exact (Reads.word16 _).step.bind ((reads_fixed left).bind ((reads_fixed right).bind_last (Reads.pure _)))
  | expansion =>
    simp only [bind_eq_ok_iff, pure_eq_ok_iff] at written
    obtain ⟨minLeft, hasMinLeft, maxLeft, hasMaxLeft, minRight, hasMinRight, maxRight, hasMaxRight, rfl⟩ := written
    have minLeftField := ElongationScale.expresses_of_limit named hasMinLeft
    have maxLeftField := ElongationScale.expresses_of_limit named hasMaxLeft
    have minRightField := ElongationScale.expresses_of_limit named hasMinRight
    have maxRightField := ElongationScale.expresses_of_limit named hasMaxRight
    refine ⟨rfl, .expansion entry.substitute minLeft maxLeft minRight maxRight entry.expansion.weight
      entry.expansion.flags, ?_, .expansion minLeftField maxLeftField minRightField maxRightField
      (SingleEntry.flagged_flags _)⟩
    simp only [List.append_assoc]
    exact (Reads.word16 _).step.bind ((reads_fixed minLeft).bind ((reads_fixed maxLeft).bind
      ((reads_fixed minRight).bind ((reads_fixed maxRight).bind
        ((Reads.word16 _).step.bind ((Reads.word32 _).step.bind_last (Reads.pure _)))))))

/-- A table whose records have been written reads back, whatever the format. -/
theorem read_records {format : SingleFormat} {coverageAt count : UInt16} {records : List (List UInt8)}
    {values : List StoredSubstitute} {glyphs : List GlyphId} {covered : List UInt8}
    (each : List.Forall₂ (Reads (readRecord format)) records values) (counted : count.toNat = records.length)
    (paired : records.length = glyphs.length) (placed : offset16 (6 + records.flatten.length) = .ok coverageAt)
    (encoded : (Coverage.mk glyphs).encode = .ok covered) :
    StoredSubstitute.read (.ofBytes (word16 format.number ++ word16 coverageAt ++ word16 count ++ records.flatten ++
      covered)) = .ok ⟨coverageAt, glyphs, values⟩ := by
  have length : (word16 format.number ++ word16 coverageAt ++ word16 count ++ records.flatten).length =
      coverageAt.toNat := by
    simp only [List.length_append, word16_length, (offset16_eq_ok_iff.mp placed).2]
  have isRead := CoveredArray.read_eq (reads_array each counted) length encoded (each.length_eq ▸ paired) 0 []
  rwa [List.append_nil] at isRead

/-- Plain pairs are written exactly if the coverage behind them is within reach. -/
theorem encodePairs_read {pairs : List (GlyphId × GlyphId)} (ascending : (pairs.map Prod.fst).Pairwise (· < ·))
    (few : pairs.length ≤ 32764) : ∃ bytes coverageAt, encodePairs pairs = .ok bytes ∧
      StoredSubstitute.read (.ofBytes bytes) =
        .ok ⟨coverageAt, pairs.map Prod.fst, pairs.map fun pair => .plain pair.2⟩ := by
  obtain ⟨count, counted⟩ := exists_count16_iff.mpr (show pairs.length ≤ 65535 by omega)
  obtain ⟨coverageAt, placed⟩ := exists_offset16_iff.mpr (show 6 + 2 * pairs.length ≤ 65535 by omega)
  obtain ⟨covered, encoded⟩ := Coverage.exists_encode_ofSet_iff.mpr
    (show (GlyphSet.mk (pairs.map Prod.fst) ascending).toList.length ≤ 65535 by rw [List.length_map]; omega)
  have words : words16 (pairs.map Prod.snd) = (pairs.map fun pair => word16 pair.2).flatten := by
    rw [words16, List.flatMap_map, List.flatMap_def]
  have each : List.Forall₂ (Reads (readRecord .plain)) (pairs.map fun pair => word16 pair.2)
      (pairs.map fun pair => .plain pair.2) := by
    rw [List.forall₂_map_left_iff, List.forall₂_map_right_iff, List.forall₂_same]
    exact fun pair _ => (Reads.word16 pair.2).step.bind_last (Reads.pure _)
  have size : 6 + (pairs.map fun pair => word16 pair.2).flatten.length = 6 + 2 * pairs.length := by
    rw [← words, words16_length, List.length_map, Nat.mul_comm]
  refine ⟨_, coverageAt, ?_, read_records each (by rw [(count16_eq_ok_iff.mp counted).2, List.length_map])
    (by rw [List.length_map, List.length_map]) (size ▸ placed) encoded⟩
  simp only [encodePairs, bind_eq_ok_iff, pure_eq_ok_iff, Coverage.ofList_of_ascending ascending, words]
  exact ⟨count, counted, coverageAt, placed, covered, encoded, rfl⟩

theorem encodePairs_far {pairs : List (GlyphId × GlyphId)} (many : 32764 < pairs.length)
    (countable : pairs.length ≤ 65535) : encodePairs pairs = .error .offsetOverflow := by
  obtain ⟨count, counted⟩ := exists_count16_iff.mpr countable
  rw [encodePairs, counted, offset16_eq_error_iff.mpr ⟨by omega, rfl⟩]
  rfl

theorem encodePairs_uncountable {pairs : List (GlyphId × GlyphId)} (many : 65535 < pairs.length) :
    encodePairs pairs = .error .badValue := by
  rw [encodePairs, count16_eq_error_iff.mpr ⟨many, rfl⟩]
  rfl

/-- Substitutes are drawn at the elongation that their format selects. -/
theorem flatten_eq_ok_iff {font : Font} {format : SingleFormat} {entry : SingleEntry} (extended : format ≠ .plain) :
    flatten font format entry = .ok drawn ↔ entry.Becomes font format drawn := by
  have draws : ∀ left right, (if left.isZero && right.isZero then .ok entry.substitute
      else (font.shape entry.substitute left right).map Shape.glyph) = .ok drawn ↔
      font.Draws entry.substitute left right drawn := by
    intro left right
    unfold Font.Draws Font.shape
    split
    · rw [Except.ok.injEq, eq_comm]
    · cases font.shapes entry.substitute left right <;> simp [Except.map]
  cases format with
  | plain => exact absurd rfl extended
  | tatweel => exact draws entry.expansion.minLeft entry.expansion.minRight
  | expansion => exact draws entry.expansion.maxLeft entry.expansion.maxRight

/-- A table without values is written as the pairs of its glyphs and what these become. -/
theorem encode_of_becomes {font : Font} {table : SingleSubstitution} {pairs : List (GlyphId × GlyphId)}
    (standard : table.format = .plain ∨ font.options.extended = false)
    (each : List.Forall₂ (fun entry pair => pair.1 = entry.1 ∧ entry.2.Becomes font table.format pair.2)
      table.entries.toList pairs) : table.encode font = (encodePairs pairs).mapError .write := by
  by_cases plain : table.format = .plain
  · have same : table.pairs = pairs := by
      rw [SingleSubstitution.pairs, ← List.map_id pairs, map_eq_map_iff]
      refine each.imp fun entry pair becomes => ?_
      rw [plain] at becomes
      exact Prod.ext becomes.1.symm becomes.2.symm
    rw [encode, isExtended, if_neg (by simp [plain]), same]
    rfl
  · have converts : List.Forall₂ (fun entry pair => (do
        return (entry.1, ← flatten font table.format entry.2) : Except CompileError _) = .ok pair)
        table.entries.toList pairs := by
      refine each.imp fun entry pair becomes => bind_eq_ok_iff.mpr ?_
      exact ⟨pair.2, resolve_eq_ok_iff.mpr ((flatten_eq_ok_iff plain).mpr becomes.2), by rw [← becomes.1]; rfl⟩
    rw [encode, isExtended, if_pos (by simp [plain]), if_neg (by simp [standard.resolve_left plain]),
      mapM_eq_ok_iff.mpr converts]
    rfl

/-- Where no values are written the table is one of plain pairs. -/
theorem encode_standard {font : Font} {table : SingleSubstitution}
    (standard : table.format = .plain ∨ font.options.extended = false)
    (shaped : ∀ entry ∈ table.entries.toList, ∃ drawn, entry.2.Becomes font table.format drawn) :
    ∃ pairs, table.encode font = (encodePairs pairs).mapError .write ∧
      List.Forall₂ (fun entry pair => pair.1 = entry.1 ∧ entry.2.Becomes font table.format pair.2)
        table.entries.toList pairs := by
  obtain ⟨pairs, each⟩ := exists_forall₂_iff.mpr fun entry member =>
    (shaped entry member).elim fun drawn becomes =>
      (⟨(entry.1, drawn), rfl, becomes⟩ : ∃ pair : GlyphId × GlyphId,
        pair.1 = entry.1 ∧ entry.2.Becomes font table.format pair.2)
  exact ⟨pairs, encode_of_becomes standard each, each⟩

/-- A table of pairs that was written had a substitute for each glyph. -/
theorem exists_becomes_of_encode {font : Font} {table : SingleSubstitution}
    (standard : table.format = .plain ∨ font.options.extended = false) (written : table.encode font = .ok bytes) :
    ∃ pairs : List (GlyphId × GlyphId), List.Forall₂ (fun entry pair => pair.1 = entry.1 ∧
      entry.2.Becomes font table.format pair.2) table.entries.toList pairs := by
  by_cases plain : table.format = .plain
  · refine ⟨table.pairs, ?_⟩
    rw [pairs, List.forall₂_map_right_iff, List.forall₂_same, plain]
    exact fun entry _ => ⟨rfl, rfl⟩
  · rw [encode, isExtended, if_pos (by simp [plain]), if_neg (by simp [standard.resolve_left plain]),
      bind_eq_ok_iff] at written
    obtain ⟨pairs, converted, _⟩ := written
    refine ⟨pairs, (mapM_eq_ok_iff.mp converted).imp fun entry pair converted => ?_⟩
    obtain ⟨drawn, flattened, same⟩ := bind_eq_ok_iff.mp converted
    cases same
    exact ⟨rfl, (flatten_eq_ok_iff plain).mp (resolve_eq_ok_iff.mp flattened)⟩

/-- The entries of a table as its lines declare them. -/
theorem getElem?_ofElongations {font : Font} {format : SingleFormat} {rule : ElongationRule}
    (populated : ofElongations font format rule = .ok table) : table.format = format ∧
      ∀ glyph entry, table.entries[glyph]? = some entry ↔ ∃ line,
        LastWith (fun line => font.glyphId line.1 = .ok glyph) rule line ∧
          font.glyphId line.2.substitute = .ok entry.substitute ∧ line.2.expansion = entry.expansion := by
  simp only [ofElongations, bind_eq_ok_iff, pure_eq_ok_iff] at populated
  obtain ⟨entries, made, rfl⟩ := populated
  refine ⟨rfl, getElem?_of_foldlM ?_ ?_ made⟩
  · rintro map ⟨name, elongation⟩ next stepped glyph named entry
    simp only [bind_eq_ok_iff, pure_eq_ok_iff] at stepped
    obtain ⟨found, isGlyph, substitute, isSubstitute, rfl⟩ := stepped
    cases named.symm.trans isGlyph
    rw [Std.TreeMap.getElem?_insert_self, Option.some.injEq, isSubstitute, Except.ok.injEq]
    obtain ⟨declared, expansion⟩ := entry
    rw [SingleEntry.mk.injEq]
  · rintro map ⟨name, elongation⟩ next stepped glyph unnamed
    simp only [bind_eq_ok_iff, pure_eq_ok_iff] at stepped
    obtain ⟨found, isGlyph, substitute, _, rfl⟩ := stepped
    have different : found ≠ glyph := fun same => unnamed (same ▸ isGlyph)
    rw [Std.TreeMap.getElem?_insert, if_neg (by rwa [Std.LawfulEqOrd.compare_eq_iff_eq])]

/-- A table that a rule of either kind was made into; a rule without elongations declares zero ones. -/
inductive Built (font : Font) : SingleFormat → ElongationRule → SingleSubstitution → Prop
  | plain {rule : SingleRule} (populated : ofRule font rule = .ok table) :
      Built font .plain (rule.map fun line => (line.1, ⟨line.2, {}⟩)) table
  | elongated {format : SingleFormat} {rule : ElongationRule} (populated : ofElongations font format rule = .ok table) :
      Built font format rule table

theorem Built.ofElongations {font : Font} {format : SingleFormat} (built : Built font format rule table) :
    SingleSubstitution.ofElongations font format rule = .ok table := by
  cases built with
  | plain populated =>
    rw [← populated, SingleSubstitution.ofElongations, ofRule, List.foldlM_map]
  | elongated populated => exact populated

theorem read_encodeExtended {font : Font} {table : SingleSubstitution} (extended : table.format ≠ .plain)
    (written : encodeExtended font table = .ok bytes) :
    ∃ stored, StoredSubstitute.read (.ofBytes bytes) = .ok stored ∧
      stored.coverageAt.toNat = 6 + StoredSubstitute.size table.format * table.entries.size ∧
      stored.Represents (fun _ (entry : SingleEntry) record => entry.Describes font table.format record)
        table.entries := by
  simp only [encodeExtended, bind_eq_ok_iff, pure_eq_ok_iff, write_eq_ok_iff, mapM_eq_ok_iff, Coverage.ofList_keys]
    at written
  obtain ⟨count, counted, records, each, coverageAt, placed, covered, encoded, rfl⟩ := written
  have sizes : records.flatten.length = StoredSubstitute.size table.format * table.entries.size := by
    rw [← List.flatMap_id, length_flatMap_of_forall (StoredSubstitute.size table.format), ← each.length_eq,
      Std.TreeMap.length_toList, Nat.mul_comm]
    intro record member
    obtain ⟨entry, _, written⟩ := exists_of_forall₂ each member
    exact (encodeEntry_reads extended written).1
  obtain ⟨values, reads, describes⟩ := exists_images each fun entry record written =>
    (encodeEntry_reads extended written).2
  have listed : records.length = table.entries.keys.length := by
    rw [← each.length_eq, ← Std.TreeMap.map_fst_toList_eq_keys, List.length_map]
  have number : count.toNat = records.length := by rw [(count16_eq_ok_iff.mp counted).2, each.length_eq]
  refine ⟨_, read_records reads number listed placed encoded, ?_, CoveredArray.represents_of_toList describes _⟩
  rw [(offset16_eq_ok_iff.mp placed).2, sizes]

end SingleSubstitution

/-- What the bytes of single substitutions say. The entries of a table are those that its rule declares. Where no values
are written, the table encodes if all the shapes it needs are there and it has at most 32764 entries; the coverage is
out of reach for more, and 65536 cannot be counted. The bytes pair the glyphs, ascending, with what each of them
becomes. Where values are written, the coverage stands right behind the records, which describe the entries in the same
order. -/
theorem SingleSubstitution.encoded_substitutes_read_back (font : Font) (format : SingleFormat) (rule : ElongationRule)
    (table : SingleSubstitution) (built : Built font format rule table) :
    table.format = format ∧
    (∀ glyph entry, table.entries[glyph]? = some entry ↔ ∃ line,
      LastWith (fun line => font.glyphId line.1 = .ok glyph) rule line ∧
        font.glyphId line.2.substitute = .ok entry.substitute ∧ line.2.expansion = entry.expansion) ∧
    table.entries.size ≤ 65536 ∧
    (format = .plain ∨ font.options.extended = false →
      (∀ (glyph : GlyphId) (entry : SingleEntry), table.entries[glyph]? = some entry →
        ∃ drawn, entry.Becomes font format drawn) →
      (table.entries.size ≤ 32764 → ∃ bytes stored, table.encode font = .ok bytes ∧
        StoredSubstitute.read (.ofBytes bytes) = .ok stored ∧
        stored.Represents (fun _ (entry : SingleEntry) record =>
          ∃ drawn, record = .plain drawn ∧ entry.Becomes font format drawn) table.entries) ∧
      (32764 < table.entries.size → table.entries.size ≤ 65535 →
        table.encode font = .error (.write .offsetOverflow)) ∧
      (65535 < table.entries.size → table.encode font = .error (.write .badValue))) ∧
    (format ≠ .plain → font.options.extended = true → ∀ bytes, table.encode font = .ok bytes →
      ∃ stored, StoredSubstitute.read (.ofBytes bytes) = .ok stored ∧
        stored.coverageAt.toNat = 6 + StoredSubstitute.size format * table.entries.size ∧
        stored.Represents (fun _ (entry : SingleEntry) record => entry.Describes font format record)
          table.entries) := by
  obtain ⟨rfl, declared⟩ := getElem?_ofElongations built.ofElongations
  have few : table.entries.size ≤ 65536 := by
    rw [← Std.TreeMap.length_keys]
    exact length_le_of_ascending (keys_ascending table.entries)
  refine ⟨rfl, declared, few, ?_, ?_⟩
  · intro standard shaped
    obtain ⟨pairs, same, each⟩ := encode_standard standard fun entry member =>
      shaped entry.1 entry.2 (Std.TreeMap.mem_toList_iff_getElem?_eq_some.mp member)
    have glyphs : pairs.map Prod.fst = table.entries.keys := by
      rw [← Std.TreeMap.map_fst_toList_eq_keys]
      exact map_eq_map_iff.mpr (each.imp fun entry pair becomes => becomes.1).flip
    have number : pairs.length = table.entries.size := by rw [← each.length_eq, Std.TreeMap.length_toList]
    rw [same, ← number]
    refine ⟨fun near => ?_, fun far countable => ?_, fun many => ?_⟩
    · obtain ⟨bytes, coverageAt, written, isRead⟩ := encodePairs_read (glyphs ▸ keys_ascending table.entries) near
      refine ⟨bytes, _, mapError_eq_ok_iff.mpr written, isRead, ?_⟩
      rw [glyphs]
      refine CoveredArray.represents_of_toList ?_ coverageAt
      rw [List.forall₂_map_right_iff]
      exact each.imp fun entry pair becomes => ⟨pair.2, rfl, becomes.2⟩
    · rw [encodePairs_far far countable]
      rfl
    · rw [encodePairs_uncountable many]
      rfl
  · intro valued extended bytes written
    rw [encode, isExtended, if_pos (by simp [valued]), if_pos extended] at written
    exact read_encodeExtended valued written

/-- Three glyphs, one of which has a shape of its own when it is elongated to the left. -/
def singleFont (extended : Bool) : Font where
  glyphs := .ofList [("beh", 3), ("teh", 4), ("long", 5)]
  shapes := (ShapeIndex.insert {} 5 .one .zero ⟨9, .one, ∅⟩).shape?
  limits := LimitTable.insert {} "long" ⟨.negOne, .one, .zero, .zero⟩
  options := { extended }

/-- The lines are not in the order of their glyphs, and one of them has no elongation. -/
def elongationRule : ElongationRule :=
  [("teh", ⟨"long", { maxLeft := .one, weight := 7, startEndLigature := 13, shrinkIsAbsolute := true }⟩),
    ("beh", ⟨"teh", {}⟩)]

/-- The same rule with the drawn glyphs and with the values. -/
theorem SingleSubstitution.encoded_substitutes_read_back_both_ways : ∃ plainTable plainBytes plain table bytes stored,
    ofElongations (singleFont false) .expansion elongationRule = .ok plainTable ∧
    plainTable.encode (singleFont false) = .ok plainBytes ∧
    StoredSubstitute.read (.ofBytes plainBytes) = .ok plain ∧
    plain.Represents (fun _ (entry : SingleEntry) record =>
      ∃ drawn, record = .plain drawn ∧ entry.Becomes (singleFont false) .expansion drawn) plainTable.entries ∧
    ofElongations (singleFont true) .expansion elongationRule = .ok table ∧
    table.encode (singleFont true) = .ok bytes ∧ StoredSubstitute.read (.ofBytes bytes) = .ok stored ∧
    stored.coverageAt.toNat = 6 + 24 * table.entries.size ∧
    stored.Represents (fun _ (entry : SingleEntry) record => entry.Describes (singleFont true) .expansion record)
      table.entries := by
  obtain ⟨plainTable, plainMade, checked⟩ :=
    @exists_of_any _ _ (ofElongations (singleFont false) .expansion elongationRule)
      (fun table => decide (table.entries.size ≤ 32764) &&
        table.entries.toList.all fun entry => (flatten (singleFont false) .expansion entry.2).isOk) (by decide +kernel)
  simp only [Bool.and_eq_true, decide_eq_true_eq, List.all_eq_true] at checked
  obtain ⟨_, _, _, standard, _⟩ := encoded_substitutes_read_back _ _ _ plainTable (.elongated plainMade)
  obtain ⟨plainBytes, plain, plainWritten, plainRead, pairs⟩ := (standard (.inr rfl) (by
    intro glyph entry found
    obtain ⟨drawn, flattened⟩ := exists_of_isOk
      (checked.2 (glyph, entry) (Std.TreeMap.mem_toList_iff_getElem?_eq_some.mpr found))
    exact ⟨drawn, (flatten_eq_ok_iff (by decide)).mp flattened⟩)).1 checked.1
  obtain ⟨table, made, written⟩ :=
    @exists_of_any _ _ (ofElongations (singleFont true) .expansion elongationRule)
      (fun table => (table.encode (singleFont true)).isOk) (by decide +kernel)
  obtain ⟨bytes, written⟩ := exists_of_isOk written
  obtain ⟨_, _, _, _, extended⟩ := encoded_substitutes_read_back _ _ _ table (.elongated made)
  obtain ⟨stored, isRead, placed, described⟩ := extended (by decide) rfl bytes written
  exact ⟨plainTable, plainBytes, plain, table, bytes, stored, plainMade, plainWritten, plainRead, pairs, made, written,
    isRead, placed, described⟩

end Kashida
