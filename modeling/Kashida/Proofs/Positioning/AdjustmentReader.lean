import Kashida.Positioning.Adjustment
import Kashida.Proofs.Class.Union
import Kashida.Proofs.Overriding
import Kashida.Proofs.Tables.CoveredArray

/-! Adjustments of single glyphs read back. The reader follows the published layout for a value record of each covered
glyph. A stored record is the exact sum of what the rule declares for the glyph and of what it was adjusted by last. -/
namespace Kashida

namespace ValueRecord

/-- The fields as numbers. -/
def fields (record : ValueRecord) : List Int :=
  [record.xPlacement.toInt, record.yPlacement.toInt, record.xAdvance.toInt, record.yAdvance.toInt]

/-- The sums field by field, in any range. -/
def sums (a b : ValueRecord) : List Int := a.fields.zipWith (· + ·) b.fields

theorem fields_inj {a b : ValueRecord} : a.fields = b.fields ↔ a = b := by
  cases a
  cases b
  simp [fields, Int16.toInt_inj]

theorem sums_zero (record : ValueRecord) : record.sums zero = record.fields := by
  simp [sums, fields, zero]

/-- A number in the range of 16 bits. -/
def InRange (n : Int) : Prop := -32768 ≤ n ∧ n ≤ 32767

instance (n : Int) : Decidable (InRange n) := inferInstanceAs (Decidable (_ ∧ _))

theorem inRange_fields (record : ValueRecord) : ∀ n ∈ record.fields, InRange n := by
  intro n member
  have range : ∀ x : Int16, InRange x.toInt := fun x => ⟨x.le_toInt, x.toInt_le⟩
  simp only [fields, List.mem_cons, List.not_mem_nil, or_false] at member
  rcases member with rfl | rfl | rfl | rfl <;> exact range _

theorem sums_eq (a b : ValueRecord) : a.sums b = [a.xPlacement.toInt + b.xPlacement.toInt,
    a.yPlacement.toInt + b.yPlacement.toInt, a.xAdvance.toInt + b.xAdvance.toInt,
    a.yAdvance.toInt + b.yAdvance.toInt] := rfl

theorem fields_of_add {a b sum : ValueRecord} (added : a.add b = .ok sum) : sum.fields = a.sums b := by
  simp only [add, bind_eq_ok_iff, pure_eq_ok_iff, coordinate16_eq_ok_iff] at added
  obtain ⟨x, ⟨_, isX⟩, y, ⟨_, isY⟩, h, ⟨_, isH⟩, v, ⟨_, isV⟩, rfl⟩ := added
  rw [sums_eq, fields, isX, isY, isH, isV]

/-- There is a sum exactly if all its fields are in range. -/
theorem exists_add_iff {a b : ValueRecord} : (∃ sum, a.add b = .ok sum) ↔ ∀ n ∈ a.sums b, InRange n := by
  constructor
  · rintro ⟨sum, added⟩
    rw [← fields_of_add added]
    exact inRange_fields sum
  · intro inRange
    simp only [sums_eq, List.forall_mem_cons] at inRange
    obtain ⟨x, y, h, v, _⟩ := inRange
    simp only [add, bind_eq_ok_iff, pure_eq_ok_iff]
    exact ⟨_, _, if_pos x, _, if_pos y, _, if_pos h, _, if_pos v, rfl⟩

theorem add_zero (record : ValueRecord) : record.add zero = .ok record := by
  obtain ⟨sum, added⟩ := exists_add_iff.mpr (record.sums_zero ▸ record.inRange_fields)
  rw [added, fields_inj.mp ((fields_of_add added).trans record.sums_zero)]

theorem add_eq_error {a b : ValueRecord} (failed : a.add b = .error error) : error = .badValue := by
  have coordinate : ∀ n, coordinate16 n = .error error → error = .badValue := by
    intro n failed
    unfold coordinate16 at failed
    split at failed <;> cases failed
    rfl
  simp only [add, bind_eq_error_iff] at failed
  rcases failed with first | ⟨_, _, second | ⟨_, _, third | ⟨_, _, fourth | ⟨_, _, last⟩⟩⟩⟩
  · exact coordinate _ first
  · exact coordinate _ second
  · exact coordinate _ third
  · exact coordinate _ fourth
  · cases last

theorem bytes_length (record : ValueRecord) : record.bytes.length = 8 := rfl

end ValueRecord

namespace StoredAdjustments

def readRecord : ReadM ParseError ValueRecord := do
  let xPlacement ← Cursor.step Cursor.int16
  let yPlacement ← Cursor.step Cursor.int16
  let xAdvance ← Cursor.step Cursor.int16
  let yAdvance ← Cursor.step Cursor.int16
  return ⟨xPlacement, yPlacement, xAdvance, yAdvance⟩

/-- The offset of the coverage and the records, which must have all fields. -/
def readArray : ReadM ParseError (UInt16 × List ValueRecord) := do
  let format ← Cursor.step Cursor.word16
  if format = 2 then
    let coverageAt ← Cursor.step Cursor.word16
    let valueFormat ← Cursor.step Cursor.word16
    Cursor.check (valueFormat = 0x000F)
    let count ← Cursor.step Cursor.word16
    let records ← Cursor.repeated readRecord count.toNat
    return (coverageAt, records)
  else throw .badVersion

def read : Scope → Except ParseError (CoveredArray ValueRecord) := CoveredArray.read readArray

theorem reads_record (record : ValueRecord) : Reads readRecord record.bytes record := by
  rw [ValueRecord.bytes, List.append_assoc, List.append_assoc]
  exact (Reads.int16 _).step.bind ((Reads.int16 _).step.bind ((Reads.int16 _).step.bind
    ((Reads.int16 _).step.bind_last (Reads.pure _))))

theorem reads_array {coverageAt count : UInt16} {records : List ValueRecord} (counted : count.toNat = records.length) :
    Reads readArray (word16 2 ++ word16 coverageAt ++ word16 SingleAdjustment.valueFormat ++ word16 count ++
      records.flatMap ValueRecord.bytes) (coverageAt, records) := by
  simp only [List.append_assoc]
  refine (Reads.word16 2).step.bind ((Reads.word16 coverageAt).step.bind ((Reads.word16 _).step.bind
    ((Reads.check rfl).bind ((Reads.word16 count).step.bind ?_))))
  rw [counted]
  exact (Reads.repeated_id fun record _ => reads_record record).bind_last (Reads.pure _)

end StoredAdjustments

/-- A change of the adjustments: of one glyph, or by a block that names glyphs. -/
inductive AdjustmentStep where
  | set (glyph : GlyphId) (record : ValueRecord)
  | merge (block : ByName ValueRecord)
deriving DecidableEq

namespace AdjustmentStep

/-- The adjustments that a step makes in turn. A block ends at its first unknown name. -/
def changes (font : Font) : AdjustmentStep → List (GlyphId × ValueRecord)
  | .set glyph record => [(glyph, record)]
  | .merge block => (block.takeWhile fun entry => (font.glyphId entry.1).isOk).filterMap fun entry =>
      (font.glyphId entry.1).toOption.map fun glyph => (glyph, entry.2)

/-- The latest adjustment of a glyph. -/
def latest? (font : Font) (steps : List AdjustmentStep) (glyph : GlyphId) : Option ValueRecord :=
  (steps.flatMap (changes font)).reverse.lookup glyph

end AdjustmentStep

namespace SingleAdjustment

open AdjustmentStep

def take (font : Font) (table : SingleAdjustment) : AdjustmentStep → SingleAdjustment
  | .set glyph record => table.setAdjustment glyph record
  | .merge block => (merge font table block).2

theorem take_eq (font : Font) (table : SingleAdjustment) (step : AdjustmentStep) : table.take font step =
    ⟨table.records, (changes font step).foldl (fun map entry => map.insert entry.1 entry.2) table.adjustments⟩ := by
  cases step with
  | set glyph record => rfl
  | merge block =>
    simp only [take]
    fun_induction merge font table block with
    | case1 table => rfl
    | case2 table name record block glyph known ih =>
      rw [ih]
      simp [changes, known, setAdjustment, Except.isOk, Except.toBool, Except.toOption]
    | case3 table name record block error unknown =>
      simp [changes, unknown, Except.isOk, Except.toBool]

/-- A run of changes leaves the records and puts the latest adjustment of each glyph over what was there. -/
theorem run_takes (font : Font) (table : SingleAdjustment) (steps : List AdjustmentStep) :
    (steps.foldl (take font) table).records = table.records ∧ ∀ glyph : GlyphId,
      (steps.foldl (take font) table).adjustments[glyph]? =
        (latest? font steps glyph).or table.adjustments[glyph]? := by
  have whole : steps.foldl (take font) table = ⟨table.records, (steps.flatMap (changes font)).foldl
      (fun map entry => map.insert entry.1 entry.2) table.adjustments⟩ := by
    induction steps generalizing table with
    | nil => rfl
    | cons step steps ih => rw [List.foldl_cons, ih, take_eq, List.flatMap_cons, List.foldl_append]
  rw [whole]
  exact ⟨rfl, fun glyph => getElem?_foldl_insert _ _ glyph⟩

/-- The last class that has a glyph gives it its record. -/
theorem getElem?_ofRule {font : Font} {rule : AdjustmentRule} (populated : ofRule font rule = .ok table) :
    table.adjustments = ∅ ∧ ∀ glyph record, table.records[glyph]? = some record ↔
      ∃ line, LastWith (fun line => font.Denotes line.1 glyph) rule line ∧ line.2 = record := by
  simp only [ofRule, bind_eq_ok_iff, pure_eq_ok_iff] at populated
  obtain ⟨records, made, rfl⟩ := populated
  refine ⟨rfl, getElem?_of_foldlM ?_ ?_ made⟩
  · rintro map ⟨category, declared⟩ next stepped glyph ⟨set, resolved, member⟩ record
    simp only [bind_eq_ok_iff, pure_eq_ok_iff, resolved, Except.ok.injEq] at stepped
    obtain ⟨_, rfl, rfl⟩ := stepped
    have inside : glyph ∈ set.toList := member
    rw [getElem?_foldl_insert_same, if_pos inside, Option.some.injEq]
  · rintro map ⟨category, declared⟩ next stepped glyph absent
    simp only [bind_eq_ok_iff, pure_eq_ok_iff] at stepped
    obtain ⟨set, resolved, rfl⟩ := stepped
    have outside : glyph ∉ set.toList := fun member => absent ⟨set, resolved, member⟩
    rw [getElem?_foldl_insert_same, if_neg outside]

/-- What a glyph is adjusted by in all, field by field and in any range: the record of the last class that has it and
its latest adjustment. -/
def Totals (font : Font) (rule : AdjustmentRule) (steps : List AdjustmentStep) (glyph : GlyphId) (totals : List Int) :
    Prop :=
  ∃ line, LastWith (fun line => font.Denotes line.1 glyph) rule line ∧
    totals = line.2.sums ((latest? font steps glyph).getD .zero)

/-- Without an adjustment nothing is added. -/
theorem adjusted_eq (table : SingleAdjustment) (glyph : GlyphId) (record : ValueRecord) :
    table.adjusted glyph record = record.add (table.adjustments[glyph]?.getD .zero) := by
  unfold adjusted
  cases table.adjustments[glyph]? with
  | none => exact record.add_zero.symm
  | some change => rfl

/-- Only the adjustments of glyphs with a record are written. -/
theorem encode_congr {one other : SingleAdjustment} (same : one.records = other.records)
    (alike : ∀ glyph ∈ one.records, one.adjustments[glyph]?.getD .zero = other.adjustments[glyph]?.getD .zero) :
    one.encode = other.encode := by
  have records : (one.records.toList.mapM fun entry => one.adjusted entry.1 entry.2) =
      one.records.toList.mapM fun entry => other.adjusted entry.1 entry.2 := by
    refine mapM_congr fun entry member => ?_
    have covered : entry.1 ∈ one.records := by
      rw [← Std.TreeMap.mem_keys, ← Std.TreeMap.map_fst_toList_eq_keys]
      exact List.mem_map_of_mem member
    rw [adjusted_eq, adjusted_eq, alike entry.1 covered]
  simp only [encode, ← same, records]

/-- A sum out of range is a bad value, whatever else is wrong. -/
theorem encode_of_outside {table : SingleAdjustment} {glyph : GlyphId} {record : ValueRecord}
    (found : table.records[glyph]? = some record)
    (outside : ¬∀ n ∈ record.sums (table.adjustments[glyph]?.getD .zero), ValueRecord.InRange n) :
    table.encode = .error .badValue := by
  have member : (glyph, record) ∈ table.records.toList := Std.TreeMap.mem_toList_iff_getElem?_eq_some.mpr found
  have fails : table.adjusted glyph record = .error .badValue := by
    rw [← ValueRecord.exists_add_iff, ← adjusted_eq] at outside
    cases outcome : table.adjusted glyph record with
    | ok sum => exact absurd ⟨sum, outcome⟩ outside
    | error error =>
      rw [adjusted_eq] at outcome
      rw [ValueRecord.add_eq_error outcome]
  have records : (table.records.toList.mapM fun entry => table.adjusted entry.1 entry.2) = .error .badValue := by
    refine mapM_eq_error (fun entry _ error failed => ?_) member fails
    rw [adjusted_eq] at failed
    exact ValueRecord.add_eq_error failed
  simp only [encode, records]
  cases counted : count16 table.records.toList.length with
  | ok count => rfl
  | error error =>
    rw [(count16_eq_error_iff.mp counted).2]
    rfl

/-- A table whose sums are in range is written if its coverage is within reach, and reads back as these sums. -/
theorem encode_of_inside {table : SingleAdjustment} (few : table.records.size ≤ 8190)
    (inside : ∀ (glyph : GlyphId) (record : ValueRecord), table.records[glyph]? = some record →
      ∀ n ∈ record.sums (table.adjustments[glyph]?.getD .zero), ValueRecord.InRange n) :
    ∃ bytes stored, table.encode = .ok bytes ∧ StoredAdjustments.read (.ofBytes bytes) = .ok stored ∧
      stored.Represents (fun glyph record (sum : ValueRecord) =>
        sum.fields = record.sums (table.adjustments[glyph]?.getD .zero)) table.records := by
  obtain ⟨records, each⟩ := exists_forall₂_iff.mpr fun entry (member : entry ∈ table.records.toList) =>
    ValueRecord.exists_add_iff.mpr (inside entry.1 entry.2 (Std.TreeMap.mem_toList_iff_getElem?_eq_some.mp member))
  have number : records.length = table.records.size := by rw [← each.length_eq, Std.TreeMap.length_toList]
  obtain ⟨count, counted⟩ := exists_count16_iff.mpr (show table.records.size ≤ 65535 by omega)
  obtain ⟨coverageAt, placed⟩ := exists_offset16_iff.mpr (show 8 + 8 * table.records.size ≤ 65535 by omega)
  obtain ⟨covered, encoded⟩ := Coverage.exists_encode_keys (show table.records.size ≤ 65535 by omega)
  have size : (records.flatMap ValueRecord.bytes).length = 8 * table.records.size := by
    rw [length_flatMap_of_forall 8 fun record _ => record.bytes_length, number, Nat.mul_comm]
  have length : (word16 2 ++ word16 coverageAt ++ word16 valueFormat ++ word16 count ++
      records.flatMap ValueRecord.bytes).length = coverageAt.toNat := by
    simp only [List.length_append, word16_length, size, (offset16_eq_ok_iff.mp placed).2]
  have isRead := CoveredArray.read_eq (StoredAdjustments.reads_array (by rw [(count16_eq_ok_iff.mp counted).2, number]))
    length encoded (by rw [number, Std.TreeMap.length_keys]) 0 []
  rw [List.append_nil] at isRead
  refine ⟨_, _, ?_, isRead, CoveredArray.represents_of_toList (each.imp fun entry sum => ValueRecord.fields_of_add) _⟩
  simp only [encode, Std.TreeMap.length_toList, Coverage.ofList_keys, adjusted_eq, bind_eq_ok_iff, pure_eq_ok_iff,
    mapM_eq_ok_iff]
  exact ⟨count, counted, records, each, coverageAt, placed, covered, encoded, rfl⟩

end SingleAdjustment

/-- What the bytes of adjustments say, after any changes to them. A total out of range is a bad value. Otherwise the
table is written, if it covers at most 8190 glyphs, and reads back: the coverage lists in ascending order the glyphs of
all classes of the rule, and the record of each is its total. Changes for other glyphs do not show in the bytes. -/
theorem SingleAdjustment.encoded_totals_read_back (font : Font) (rule : AdjustmentRule) (table : SingleAdjustment)
    (populated : ofRule font rule = .ok table) (steps : List AdjustmentStep) :
    ((∃ glyph totals, Totals font rule steps glyph totals ∧ ∃ total ∈ totals, ¬ValueRecord.InRange total) →
      (steps.foldl (take font) table).encode = .error .badValue) ∧
    ((∀ glyph totals, Totals font rule steps glyph totals → ∀ total ∈ totals, ValueRecord.InRange total) →
      table.records.size ≤ 8190 → ∃ bytes stored, (steps.foldl (take font) table).encode = .ok bytes ∧
        StoredAdjustments.read (.ofBytes bytes) = .ok stored ∧ stored.glyphs.Pairwise (· < ·) ∧
        (∀ glyph, glyph ∈ stored.glyphs ↔ ∃ line ∈ rule, font.Denotes line.1 glyph) ∧
        List.Forall₂ (fun glyph record => Totals font rule steps glyph record.fields) stored.glyphs stored.values) ∧
    ∀ others, (∀ glyph, (∃ line ∈ rule, font.Denotes line.1 glyph) →
        AdjustmentStep.latest? font steps glyph = AdjustmentStep.latest? font others glyph) →
      (steps.foldl (take font) table).encode = (others.foldl (take font) table).encode := by
  obtain ⟨unadjusted, declared⟩ := getElem?_ofRule populated
  have latest : ∀ (steps : List AdjustmentStep) (glyph : GlyphId),
      (steps.foldl (take font) table).adjustments[glyph]? = AdjustmentStep.latest? font steps glyph := by
    intro steps glyph
    rw [(run_takes font table steps).2, unadjusted, Std.TreeMap.getElem?_emptyc, Option.or_none]
  have records : ∀ steps : List AdjustmentStep, (steps.foldl (take font) table).records = table.records :=
    fun steps => (run_takes font table steps).1
  have covered : ∀ glyph, glyph ∈ table.records ↔ ∃ line ∈ rule, font.Denotes line.1 glyph := by
    intro glyph
    rw [← exists_lastWith_iff, Std.TreeMap.mem_iff_isSome_getElem?, Option.isSome_iff_exists]
    simp only [declared]
    constructor
    · rintro ⟨_, line, last, _⟩
      exact ⟨line, last⟩
    · rintro ⟨line, last⟩
      exact ⟨line.2, line, last, rfl⟩
  refine ⟨?_, ?_, ?_⟩
  · rintro ⟨glyph, _, ⟨line, last, rfl⟩, total, member, outside⟩
    have found : (steps.foldl (take font) table).records[glyph]? = some line.2 := by
      rw [records, declared]
      exact ⟨line, last, rfl⟩
    refine encode_of_outside found fun inside => outside (inside total ?_)
    rwa [latest]
  · intro inside few
    have totals : ∀ (glyph : GlyphId) (record : ValueRecord),
        (steps.foldl (take font) table).records[glyph]? = some record →
          Totals font rule steps glyph (record.sums ((AdjustmentStep.latest? font steps glyph).getD .zero)) := by
      intro glyph record found
      rw [records, declared] at found
      obtain ⟨line, last, rfl⟩ := found
      exact ⟨line, last, rfl⟩
    have fits : ∀ (glyph : GlyphId) (record : ValueRecord),
        (steps.foldl (take font) table).records[glyph]? = some record →
          ∀ n ∈ record.sums ((steps.foldl (take font) table).adjustments[glyph]?.getD .zero),
            ValueRecord.InRange n := by
      intro glyph record found
      rw [latest]
      exact inside glyph _ (totals glyph record found)
    obtain ⟨bytes, stored, written, isRead, ascending, isCovered, aligned⟩ :=
      encode_of_inside (records steps ▸ few) fits
    refine ⟨bytes, stored, written, isRead, ascending, fun glyph => ?_, aligned.imp ?_⟩
    · rw [isCovered, records, covered]
    · rintro glyph sum ⟨record, found, same⟩
      rw [latest] at same
      exact same ▸ totals glyph record found
  · intro others alike
    refine encode_congr ((records steps).trans (records others).symm) fun glyph member => ?_
    rw [records] at member
    rw [latest, latest, alike glyph ((covered glyph).mp member)]

def adjustmentFont : Font where
  glyphs := .ofList [("beh", 3), ("teh", 4), ("dot", 6)]

/-- The last line names a glyph of the first again, by its code. -/
def adjustmentRule : AdjustmentRule := [("teh", ⟨1, 2, 3, 4⟩), ("beh", ⟨5, 6, 7, 8⟩), ("0004", ⟨32000, 0, 0, -1⟩)]

/-- A glyph that is not covered, a block that ends at an unknown name, and a glyph that is adjusted again. -/
def adjustmentSteps : List AdjustmentStep :=
  [.set 6 ⟨32767, 0, 0, 0⟩, .set 4 ⟨32767, 0, 0, 0⟩, .merge [("teh", ⟨700, 0, 0, 1⟩), ("lam", ⟨9, 9, 9, 9⟩),
    ("beh", ⟨9, 9, 9, 9⟩)]]

/-- The totals of the steps are in range, and those of the first two of them are not. -/
theorem SingleAdjustment.encoded_totals_read_back_of_steps : ∃ table bytes stored,
    ofRule adjustmentFont adjustmentRule = .ok table ∧
    ((adjustmentSteps.take 2).foldl (take adjustmentFont) table).encode = .error .badValue ∧
    (adjustmentSteps.foldl (take adjustmentFont) table).encode = .ok bytes ∧
    StoredAdjustments.read (.ofBytes bytes) = .ok stored ∧ 4 ∈ stored.glyphs ∧
    List.Forall₂ (fun glyph record => Totals adjustmentFont adjustmentRule adjustmentSteps glyph record.fields)
      stored.glyphs stored.values := by
  have resolves : adjustmentFont.resolve = adjustmentFont.glyphs.resolveLeaf adjustmentFont.dialect :=
    Font.resolve_of_no_classes rfl
  obtain ⟨table, populated, few⟩ := @exists_of_any _ _ (ofRule adjustmentFont adjustmentRule)
    (fun table => decide (table.records.size ≤ 8190)) (by
      simp only [ofRule, resolves]
      decide +kernel)
  have byCode : adjustmentFont.Denotes "0004" 4 :=
    ⟨.ofList [4], resolves ▸ by decide +kernel, GlyphSet.mem_ofList.mpr List.mem_cons_self⟩
  have last : LastWith (fun line => adjustmentFont.Denotes line.1 4) adjustmentRule ("0004", ⟨32000, 0, 0, -1⟩) :=
    ⟨adjustmentRule.take 2, [], rfl, byCode, by simp⟩
  have overflow : ((adjustmentSteps.take 2).foldl (take adjustmentFont) table).encode = .error .badValue :=
    (encoded_totals_read_back _ _ table populated (adjustmentSteps.take 2)).1
      ⟨4, _, ⟨_, last, rfl⟩, 64767, by decide +kernel, by decide⟩
  have named : ∀ line ∈ adjustmentRule, (adjustmentFont.glyphs.resolveLeaf adjustmentFont.dialect line.1).toOption.all
      (fun set => set.toList.all fun glyph => glyph == 3 || glyph == 4) = true := by decide +kernel
  have inRange : ∀ line ∈ adjustmentRule,
      (∀ n ∈ line.2.sums ((AdjustmentStep.latest? adjustmentFont adjustmentSteps 3).getD .zero),
        ValueRecord.InRange n) ∧
      ∀ n ∈ line.2.sums ((AdjustmentStep.latest? adjustmentFont adjustmentSteps 4).getD .zero),
        ValueRecord.InRange n := by decide +kernel
  obtain ⟨bytes, stored, written, isRead, _, covered, aligned⟩ :=
    (encoded_totals_read_back _ _ table populated adjustmentSteps).2.1 (by
      rintro glyph _ ⟨line, isLast, rfl⟩
      obtain ⟨listed, set, resolved, member⟩ := isLast.mem
      have either := named line listed
      rw [← resolves, resolved] at either
      have isEither := List.all_eq_true.mp either glyph member
      rw [Bool.or_eq_true, beq_iff_eq, beq_iff_eq] at isEither
      rcases isEither with rfl | rfl
      · exact (inRange line listed).1
      · exact (inRange line listed).2) (of_decide_eq_true few)
  exact ⟨table, bytes, stored, populated, overflow, written, isRead, (covered 4).mpr ⟨_, last.mem⟩, aligned⟩

end Kashida
