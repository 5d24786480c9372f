import Kashida.Proofs.Bytes.Linking
import Kashida.Proofs.Contextual.ChainedReader
import Kashida.Proofs.Positioning.AdjustmentReader
import Kashida.Proofs.Positioning.CursiveLayout
import Kashida.Proofs.Positioning.MarkLayout
import Kashida.Proofs.Substitution.MultipleReader
import Kashida.Proofs.Substitution.SingleReader

/-! The layouts of all kinds of tables, as headers with links. Each writer settles on its layout once what it counts can
be counted: there is then nothing left that can fail but an offset. -/
namespace Kashida

open DeltaSets (positions)

theorem count16_of_le (few : n ≤ 65535) : count16 n = .ok (.ofNat n) := if_pos few

namespace Coverage

def bytes (glyphs : List GlyphId) : List UInt8 := word16 1 ++ word16 (.ofNat glyphs.length) ++ words16 glyphs

theorem bytes_length (glyphs : List GlyphId) : (bytes glyphs).length = 4 + 2 * glyphs.length := by
  simp only [bytes, List.length_append, word16_length, words16_length]
  omega

theorem encode_of_ascending {coverage : Coverage} (ascending : coverage.glyphs.Pairwise (· < ·))
    (few : coverage.glyphs.length ≤ 65535) : coverage.encode = .ok (bytes coverage.glyphs) := by
  rw [encode, if_pos (isAscending_iff.mpr ascending), count16_of_le few]
  rfl

theorem encode_ofSet {set : GlyphSet} (few : set.toList.length ≤ 65535) :
    (ofSet set).encode = .ok (bytes set.toList) := encode_of_ascending set.ascending few

theorem encode_ofList {glyphs : List GlyphId} (ascending : glyphs.Pairwise (· < ·)) (few : glyphs.length ≤ 65535) :
    (ofList glyphs).encode = .ok (bytes glyphs) := by
  rw [ofList_of_ascending ascending]
  exact encode_of_ascending ascending few

theorem encode_keys {map : Std.TreeMap GlyphId β} (few : map.size ≤ 65535) :
    (ofList (map.toList.map Prod.fst)).encode = .ok (bytes map.keys) := by
  rw [ofList_keys]
  exact encode_of_ascending (keys_ascending map) (by rwa [Std.TreeMap.length_keys])

end Coverage

namespace SingleSubstitution

def pairTable (pairs : List (GlyphId × GlyphId)) : LinkedTable :=
  .single (word16 SingleFormat.plain.number) (word16 (.ofNat pairs.length) ++ words16 (pairs.map Prod.snd))
    (Coverage.bytes (pairs.map Prod.fst))

theorem settles_encodePairs {pairs : List (GlyphId × GlyphId)} (ascending : (pairs.map Prod.fst).Pairwise (· < ·))
    (few : pairs.length ≤ 65535) : Settles (encodePairs pairs) (pairTable pairs).targets (pairTable pairs).render := by
  have place : (word16 SingleFormat.plain.number).length +
      (2 + (word16 (.ofNat pairs.length) ++ words16 (pairs.map Prod.snd)).length) = 6 + 2 * pairs.length := by
    simp only [List.length_append, word16_length, words16_length, List.length_map]
    omega
  have covered := Coverage.encode_ofList ascending (by rwa [List.length_map])
  rw [pairTable, LinkedTable.single_targets, LinkedTable.single_render, place, encodePairs, count16_of_le few]
  refine (Settles.offset _).bind_last ?_
  rw [covered]
  simp only [List.append_assoc]
  rfl

theorem count_of_encodePairs {pairs : List (GlyphId × GlyphId)} (written : encodePairs pairs = .ok bytes) :
    pairs.length ≤ 65535 := by
  simp only [encodePairs, bind_eq_ok_iff] at written
  obtain ⟨count, counted, _⟩ := written
  exact (count16_eq_ok_iff.mp counted).1

def recordTable (table : SingleSubstitution) (records : List (List UInt8)) : LinkedTable :=
  .single (word16 table.format.number) (word16 (.ofNat table.entries.size) ++ records.flatten)
    (Coverage.bytes table.entries.keys)

theorem encodeExtended_of_values {font : Font} {table : SingleSubstitution} {records : List (List UInt8)}
    (few : table.entries.size ≤ 65535)
    (values : (table.entries.toList.mapM fun (_, entry) => encodeEntry font table.format entry) = .ok records) :
    ∃ laid, encodeExtended font table = laid.mapError .write ∧
      Settles laid (table.recordTable records).targets (table.recordTable records).render := by
  have place : (word16 table.format.number).length +
      (2 + (word16 (.ofNat table.entries.size) ++ records.flatten).length) = 6 + records.flatten.length := by
    simp only [List.length_append, word16_length]
    omega
  have covered := Coverage.encode_keys few
  rw [recordTable, LinkedTable.single_targets, LinkedTable.single_render, place]
  refine ⟨do
    let coverageAt ← offset16 (6 + records.flatten.length)
    return word16 table.format.number ++ word16 coverageAt ++ (word16 (.ofNat table.entries.size) ++ records.flatten) ++
      Coverage.bytes table.entries.keys, ?_, (Settles.offset _).bind_last rfl⟩
  simp only [encodeExtended, values, covered, Std.TreeMap.length_toList, count16_of_le few, ← List.append_assoc]
  show ((liftM (offset16 (6 + records.flatten.length)) : Except CompileError UInt16) >>= fun coverageAt => _) = _
  cases offset16 (6 + records.flatten.length) with
  | error error => rfl
  | ok offset => rfl

theorem values_of_encodeExtended {font : Font} {table : SingleSubstitution}
    (written : encodeExtended font table = .ok bytes) : table.entries.size ≤ 65535 ∧ ∃ records,
      List.Forall₂ (fun entry record => encodeEntry font table.format entry.2 = .ok record) table.entries.toList
        records := by
  simp only [encodeExtended, bind_eq_ok_iff, write_eq_ok_iff, mapM_eq_ok_iff, Std.TreeMap.length_toList] at written
  obtain ⟨count, counted, records, values, _⟩ := written
  exact ⟨(count16_eq_ok_iff.mp counted).1, records, values⟩

end SingleSubstitution

/-- A coverage that is already encoded, and the blocks of the covered glyphs. -/
theorem settles_counted {encode : α → Except WriteError (List UInt8)} {block : α → List UInt8} {inside : α → List Nat}
    {items : List α} (each : ∀ item ∈ items, Settles (encode item) (inside item) (block item)) (first : List UInt8) :
    Settles (do
        let firstAt ← offset16 (6 + 2 * items.length)
        let (offsets, blocks) ← placeBlocks encode (6 + 2 * items.length + first.length) items
        return word16 1 ++ word16 firstAt ++ word16 (.ofNat items.length) ++ words16 offsets ++ first ++ blocks)
      ((LinkedTable.counted first (items.map block)).targets ++ items.flatMap inside)
      (LinkedTable.counted first (items.map block)).render := by
  rw [LinkedTable.counted_targets, LinkedTable.counted_render, List.length_map]
  exact (Settles.offset _).bind ((Settles.placeBlocks each _).bind_last rfl)

namespace MultipleSubstitution

def sequenceBytes (sequence : List GlyphId) : List UInt8 := word16 (.ofNat sequence.length) ++ words16 sequence

def plan (table : MultipleSubstitution) : TablePlan where
  whole := .counted (Coverage.bytes table.sequences.keys) (table.ordered.map sequenceBytes)

theorem settles_encode {table : MultipleSubstitution} (few : table.sequences.size ≤ 65535)
    (short : ∀ sequence ∈ table.ordered, sequence.length ≤ 65535) :
    Settles table.encode table.plan.targets table.plan.whole.render := by
  have covered := Coverage.encode_keys few
  have sequences : ∀ sequence ∈ table.ordered,
      Settles (encodeSequence sequence) [] (sequenceBytes sequence) := by
    intro sequence member
    rw [encodeSequence, count16_of_le (short sequence member)]
    exact .ok _
  have laid := settles_counted sequences (Coverage.bytes table.sequences.keys)
  rw [ordered_length] at laid
  rw [encode, Std.TreeMap.length_toList, count16_of_le few, covered]
  refine laid.of_iff ?_
  simp [TablePlan.targets, plan, inReach_flatMap]

theorem counts_of_encode {table : MultipleSubstitution} (written : table.encode = .ok bytes) :
    table.sequences.size ≤ 65535 ∧ ∀ sequence ∈ table.ordered, sequence.length ≤ 65535 := by
  simp only [encode, bind_eq_ok_iff, Prod.exists, placeBlocks_eq_ok_iff, Std.TreeMap.length_toList] at written
  obtain ⟨count, counted, _, _, _, _, _, _, ⟨blocks, each, _⟩, _⟩ := written
  refine ⟨(count16_eq_ok_iff.mp counted).1, fun sequence member => ?_⟩
  obtain ⟨block, encoded⟩ := exists_forall₂_iff.mp ⟨blocks, each⟩ sequence member
  exact (encodeSequence_checks sequence).exists_ok_iff.mp ⟨block, encoded⟩ _ List.mem_cons_self

end MultipleSubstitution

namespace LigatureSubstitution

def ligatureBytes (ligature : Ligature) : List UInt8 :=
  word16 ligature.glyph ++ word16 (.ofNat ligature.components.length) ++ words16 ligature.rest

def setTable (set : List Ligature) : LinkedTable :=
  .index (word16 (.ofNat set.length)) [] (set.map ligatureBytes)

def plan (table : LigatureSubstitution) : TablePlan where
  whole := .counted (Coverage.bytes table.firsts.toList)
    ((table.sets.map Prod.snd).map fun set => (setTable set).render)
  nested := (table.sets.map Prod.snd).map setTable
  inside := by
    rintro nested member
    obtain ⟨set, present, rfl⟩ := List.mem_map.mp member
    exact List.mem_cons_of_mem _ (List.mem_map_of_mem present)

theorem settles_encodeSet {set : List Ligature} (few : set.length ≤ 65535)
    (short : ∀ ligature ∈ set, ligature.components.length ≤ 65535) :
    Settles (encodeSet set) (setTable set).targets (setTable set).render := by
  have ligatures : ∀ ligature ∈ set, Settles (encodeLigature ligature) [] (ligatureBytes ligature) := by
    intro ligature member
    rw [encodeLigature, count16_of_le (short ligature member)]
    exact .ok _
  have placed := Settles.placeBlocks ligatures (2 + 2 * set.length)
  have start : (word16 (.ofNat set.length)).length + 2 * set.length + ([] : List UInt8).length =
      2 + 2 * set.length := rfl
  rw [List.flatMap_eq_nil_iff.mpr fun _ _ => rfl, List.append_nil] at placed
  rw [encodeSet, count16_of_le few, setTable, LinkedTable.index_targets, LinkedTable.index_render, List.append_nil,
    List.length_map, start]
  exact placed.bind_last rfl

theorem settles_encode {table : LigatureSubstitution} (few : table.sets.length ≤ 65535)
    (sets : ∀ set ∈ table.sets.map Prod.snd, set.length ≤ 65535 ∧
      ∀ ligature ∈ set, ligature.components.length ≤ 65535) :
    Settles table.encode table.plan.targets table.plan.whole.render := by
  have covered := Coverage.encode_ofSet (show table.firsts.toList.length ≤ 65535 by rwa [← sets_length])
  have laid := settles_counted (fun set member => settles_encodeSet (sets set member).1 (sets set member).2)
    (Coverage.bytes table.firsts.toList)
  rw [List.length_map] at laid
  rw [encode, count16_of_le few, covered, TablePlan.targets, plan, List.flatMap_map]
  exact laid

end LigatureSubstitution

namespace SingleAdjustment

def recordTable (table : SingleAdjustment) (records : List ValueRecord) : LinkedTable :=
  .single (word16 2) (word16 valueFormat ++ word16 (.ofNat table.records.size) ++ records.flatMap ValueRecord.bytes)
    (Coverage.bytes table.records.keys)

theorem settles_encode {table : SingleAdjustment} {records : List ValueRecord} (few : table.records.size ≤ 65535)
    (values : (table.records.toList.mapM fun (glyph, record) => table.adjusted glyph record) = .ok records) :
    Settles table.encode (table.recordTable records).targets (table.recordTable records).render := by
  have count : records.length = table.records.size := by
    rw [← (mapM_eq_ok_iff.mp values).length_eq, Std.TreeMap.length_toList]
  have place : (word16 2).length + (2 + (word16 valueFormat ++ word16 (.ofNat table.records.size) ++
      records.flatMap ValueRecord.bytes).length) = 8 + 8 * table.records.size := by
    rw [List.length_append, length_flatMap_of_forall 8 fun record _ => record.bytes_length, count]
    simp only [List.length_append, word16_length]
    omega
  have covered := Coverage.encode_keys few
  rw [recordTable, LinkedTable.single_targets, LinkedTable.single_render, place]
  simp only [encode, values, covered, Std.TreeMap.length_toList, count16_of_le few, ← List.append_assoc]
  exact (Settles.offset _).bind_last rfl

theorem values_of_encode {table : SingleAdjustment} (written : table.encode = .ok bytes) :
    table.records.size ≤ 65535 ∧ ∃ records, List.Forall₂ (fun entry record =>
      table.adjusted entry.1 entry.2 = .ok record) table.records.toList records := by
  simp only [encode, bind_eq_ok_iff, mapM_eq_ok_iff, Std.TreeMap.length_toList] at written
  obtain ⟨count, counted, records, values, _⟩ := written
  exact ⟨(count16_eq_ok_iff.mp counted).1, records, values⟩

end SingleAdjustment

namespace CursiveAttachment

/-- The offsets of anchors, where an absent anchor has offset zero. -/
def anchorLinks (next : Nat) : List (Option Anchor) → List HeaderPart
  | [] => []
  | none :: anchors => .bytes (word16 0) :: anchorLinks next anchors
  | some _ :: anchors => .link next :: anchorLinks (next + 1) anchors

theorem link_mem_anchorLinks {anchors : List (Option Anchor)} {next block : Nat}
    (member : .link block ∈ anchorLinks next anchors) : block < next + (anchors.filterMap id).length := by
  induction anchors generalizing next with
  | nil => cases member
  | cons anchor anchors ih =>
    cases anchor with
    | none =>
      rcases List.mem_cons.mp member with impossible | later
      · cases impossible
      · exact ih later
    | some anchor =>
      have count : ((some anchor :: anchors).filterMap id).length = (anchors.filterMap id).length + 1 := rfl
      rw [count]
      rcases List.mem_cons.mp member with here | later
      · cases here
        omega
      · have found := ih later
        omega

theorem sum_size_anchorLinks (next : Nat) (anchors : List (Option Anchor)) :
    ((anchorLinks next anchors).map HeaderPart.size).sum = 2 * anchors.length := by
  induction anchors generalizing next with
  | nil => rfl
  | cons anchor anchors ih =>
    rw [List.length_cons, Nat.mul_succ, Nat.add_comm]
    cases anchor with
    | none => exact congrArg (2 + ·) (ih next)
    | some anchor => exact congrArg (2 + ·) (ih (next + 1))

/-- Anchors are placed where their links lead, if blocks of their sizes follow one another from `start` on. -/
theorem settles_placeAnchors {positionOf : Nat → Nat} {anchors : List (Option Anchor)} {next start : Nat}
    (places : ∀ index < (anchors.filterMap id).length,
      positionOf (next + index) = start + (((anchors.filterMap id).take index).map Anchor.size).sum) :
    ∃ offsets, Settles (placeAnchors ⟨start⟩ anchors)
        ((anchorLinks next anchors).flatMap (HeaderPart.targets positionOf)) offsets ∧
      words16 offsets = (anchorLinks next anchors).flatMap (HeaderPart.render positionOf) := by
  induction anchors generalizing next start with
  | nil => exact ⟨[], .ok _, rfl⟩
  | cons anchor anchors ih =>
    cases anchor with
    | none =>
      obtain ⟨offsets, settles, same⟩ := ih places
      exact ⟨0 :: offsets, settles.bind_last rfl, congrArg (word16 0 ++ ·) same⟩
    | some anchor =>
      obtain rfl : positionOf next = start := places 0 (Nat.zero_lt_succ _)
      have later : ∀ index < (anchors.filterMap id).length, positionOf (next + 1 + index) =
          positionOf next + anchor.size + (((anchors.filterMap id).take index).map Anchor.size).sum := by
        intro index inside
        have place := places (index + 1) (Nat.succ_lt_succ inside)
        rw [← Nat.add_assoc, Nat.add_right_comm] at place
        simpa [Nat.add_assoc] using place
      obtain ⟨offsets, settles, same⟩ := ih later
      have first : Settles (OffsetCounter.advance ⟨positionOf next⟩ anchor.size) [positionOf next]
          (.ofNat (positionOf next), ⟨positionOf next + anchor.size⟩) := (Settles.offset _).bind_last rfl
      exact ⟨.ofNat (positionOf next) :: offsets, first.bind (settles.bind_last rfl),
        congrArg (word16 (.ofNat (positionOf next)) ++ ·) same⟩

def linked (glyphs : List GlyphId) (anchors : List (Option Anchor)) : LinkedTable where
  header := .bytes (word16 1) :: .link 0 :: .bytes (word16 (.ofNat glyphs.length)) :: anchorLinks 1 anchors
  blocks := Coverage.bytes glyphs :: (anchors.filterMap id).map Anchor.bytes
  linked := by
    simp only [List.mem_cons, reduceCtorEq, HeaderPart.link.injEq, false_or, List.length_cons, List.length_map]
    rintro block (rfl | member)
    · exact Nat.zero_lt_succ _
    · rw [Nat.add_comm]
      exact link_mem_anchorLinks member

section Layout

variable {glyphs : List GlyphId} {anchors : List (Option Anchor)}

theorem linked_headerSize (paired : anchors.length = 2 * glyphs.length) :
    (linked glyphs anchors).headerSize = 6 + 4 * glyphs.length := by
  simp only [LinkedTable.headerSize, linked, List.map_cons, List.sum_cons, sum_size_anchorLinks, HeaderPart.size,
    word16_length, paired]
  omega

theorem positionOf_anchor (paired : anchors.length = 2 * glyphs.length) (index : Nat) :
    (linked glyphs anchors).positionOf (1 + index) = 6 + 4 * glyphs.length + (4 + 2 * glyphs.length) +
      (((anchors.filterMap id).take index).map Anchor.size).sum := by
  have sizes : ((anchors.filterMap id).map Anchor.bytes).map List.length = (anchors.filterMap id).map Anchor.size := by
    rw [List.map_map]
    exact List.map_congr_left fun anchor _ => anchor.bytes_length
  rw [LinkedTable.positionOf, linked_headerSize paired, Nat.add_comm 1, linked, List.take_succ_cons, List.map_cons,
    List.sum_cons, List.map_take, sizes, ← List.map_take, Coverage.bytes_length]
  omega

theorem linked_targets (paired : anchors.length = 2 * glyphs.length) : (linked glyphs anchors).targets =
    (6 + 4 * glyphs.length) ::
      (anchorLinks 1 anchors).flatMap (HeaderPart.targets (linked glyphs anchors).positionOf) := by
  rw [← linked_headerSize paired, ← LinkedTable.positionOf_zero]
  rfl

/-- The offset of the coverage is written as if it were a count. -/
theorem layout_eq (ascending : glyphs.Pairwise (· < ·)) (few : glyphs.length ≤ 65535)
    (paired : anchors.length = 2 * glyphs.length) : layout glyphs anchors =
      if InReach (linked glyphs anchors).targets then .ok (linked glyphs anchors).render
      else .error (if glyphs.length ≤ 16382 then .offsetOverflow else .badValue) := by
  by_cases near : glyphs.length ≤ 16382
  · obtain ⟨offsets, settles, same⟩ :=
      settles_placeAnchors fun index (_ : index < (anchors.filterMap id).length) => positionOf_anchor paired index
    have size : (Coverage.ofList glyphs).size = 4 + 2 * glyphs.length := by
      rw [Coverage.ofList_of_ascending ascending]
      rfl
    have whole : Settles (layout glyphs anchors)
        ((anchorLinks 1 anchors).flatMap (HeaderPart.targets (linked glyphs anchors).positionOf))
        (linked glyphs anchors).render := by
      rw [layout, count16_of_le (by omega), count16_of_le few, size, Coverage.encode_ofList ascending few]
      refine settles.bind_last (congrArg Except.ok ?_)
      rw [same, LinkedTable.render, ← linked_headerSize paired, ← LinkedTable.positionOf_zero]
      simp only [linked, List.flatMap_def, List.map_cons, List.flatten_cons, HeaderPart.render, List.append_assoc]
    rw [if_pos near]
    refine whole.of_iff ?_
    rw [linked_targets paired, inReach_cons, and_iff_right (by omega)]
  · have far : ¬InReach (linked glyphs anchors).targets := by
      rw [linked_targets paired, inReach_cons]
      omega
    rw [if_neg far, if_neg near, layout, count16_eq_error_iff.mpr ⟨by omega, rfl⟩]
    rfl

theorem count_of_layout (written : layout glyphs anchors = .ok bytes) : glyphs.length ≤ 65535 := by
  simp only [layout, bind_eq_ok_iff] at written
  obtain ⟨_, _, count, counted, _⟩ := written
  exact (count16_eq_ok_iff.mp counted).1

end Layout

end CursiveAttachment

namespace MarkAttachment

/-- Class numbers, each with a link to its anchor. -/
def markRecords (anchors : List (UInt16 × Anchor)) : List HeaderPart :=
  anchors.zipIdx.flatMap fun entry => [.bytes (word16 entry.1.1), .link entry.2]

section MarkRecords

variable (anchors : List (UInt16 × Anchor))

theorem sum_size_markRecords : ((markRecords anchors).map HeaderPart.size).sum = 4 * anchors.length := by
  rw [markRecords, List.map_flatMap, List.flatMap_def, List.sum_flatten, List.map_map]
  simp [Function.comp_def, HeaderPart.size, word16_length, Nat.mul_comm]

theorem flatMap_targets_markRecords (positionOf : Nat → Nat) :
    (markRecords anchors).flatMap (HeaderPart.targets positionOf) =
      (List.range' 0 anchors.length).map positionOf := by
  rw [← List.zipIdx_map_snd, List.map_map, markRecords, List.flatMap_assoc, List.map_eq_flatMap]
  rfl

theorem flatMap_render_markRecords (positionOf : Nat → Nat) :
    (markRecords anchors).flatMap (HeaderPart.render positionOf) =
      (anchors.zip (((List.range' 0 anchors.length).map positionOf).map UInt16.ofNat)).flatMap fun record =>
        word16 record.1.1 ++ word16 record.2 := by
  rw [List.map_map, List.zip_map_right, ← List.zipIdx_eq_zip_range', List.flatMap_map, markRecords, List.flatMap_assoc]
  refine List.flatMap_congr fun entry _ => ?_
  simp [HeaderPart.render]

end MarkRecords

def markTable (anchors : List (UInt16 × Anchor)) : LinkedTable where
  header := .bytes (word16 (.ofNat anchors.length)) :: markRecords anchors
  blocks := anchors.map fun record => record.2.bytes
  linked := by
    rintro block member
    obtain ⟨entry, listed, isLink⟩ := List.mem_flatMap.mp ((List.mem_cons.mp member).resolve_left (by simp))
    obtain rfl : block = entry.2 := by simpa using isLink
    simpa using List.snd_lt_add_of_mem_zipIdx listed

def baseTable (baseCount : Nat) (anchors : List Anchor) : LinkedTable :=
  .index (word16 (.ofNat baseCount)) [] (anchors.map Anchor.bytes)

/-- Two coverages and the two arrays, whatever they hold. -/
def outerTable (classCount : Nat) (markCoverage baseCoverage marks bases : List UInt8) : LinkedTable where
  header := [.bytes (word16 1), .link 0, .link 1, .bytes (word16 (.ofNat classCount)), .link 2, .link 3]
  blocks := [markCoverage, baseCoverage, marks, bases]
  linked := by simp

section OuterTable

variable {classCount : Nat} {markCoverage baseCoverage marks bases : List UInt8}

theorem outerTable_targets : (outerTable classCount markCoverage baseCoverage marks bases).targets =
    [12, 12 + markCoverage.length, 12 + markCoverage.length + baseCoverage.length,
      12 + markCoverage.length + baseCoverage.length + marks.length] := by
  simp only [Nat.add_assoc]
  rfl

theorem outerTable_render : (outerTable classCount markCoverage baseCoverage marks bases).render =
    words16 [1, .ofNat 12, .ofNat (12 + markCoverage.length), .ofNat classCount,
      .ofNat (12 + markCoverage.length + baseCoverage.length),
      .ofNat (12 + markCoverage.length + baseCoverage.length + marks.length)] ++
    markCoverage ++ baseCoverage ++ marks ++ bases := by
  have blocks : markCoverage ++ (baseCoverage ++ (marks ++ bases)) =
      [markCoverage, baseCoverage, marks, bases].flatten := by simp
  simp only [Nat.add_assoc, List.append_assoc]
  rw [blocks]
  rfl

end OuterTable

def plan (classCount : Nat) (marks bases : List GlyphId) (markAnchors : List (UInt16 × Anchor))
    (baseAnchors : List Anchor) : TablePlan where
  whole := outerTable classCount (Coverage.bytes marks) (Coverage.bytes bases) (markTable markAnchors).render
    (baseTable bases.length baseAnchors).render
  nested := [markTable markAnchors, baseTable bases.length baseAnchors]
  inside := by simp [outerTable]

theorem settles_markArray {anchors : List (UInt16 × Anchor)} (few : anchors.length ≤ 65535) :
    Settles (markArray anchors) (markTable anchors).targets (markTable anchors).render := by
  have places : (List.range' 0 anchors.length).map (markTable anchors).positionOf =
      positions (2 + 4 * anchors.length) (anchors.map fun record => record.2.size) := by
    have sizes : (markTable anchors).blocks.map List.length = anchors.map fun record => record.2.size := by
      rw [markTable, List.map_map]
      exact List.map_congr_left fun record _ => record.2.bytes_length
    have start : (markTable anchors).headerSize = 2 + 4 * anchors.length := by
      rw [← sum_size_markRecords]
      rfl
    rw [LinkedTable.map_positionOf _ (by rw [Nat.zero_add, markTable, List.length_map]), List.drop_zero, sizes,
      LinkedTable.positionOf_zero, start]
  have targets : (markTable anchors).targets =
      positions (2 + 4 * anchors.length) (anchors.map fun record => record.2.size) := by
    rw [← places, ← flatMap_targets_markRecords]
    rfl
  rw [targets, markArray, count16_of_le few]
  refine (Settles.advanceAll _ _).bind_last (congrArg Except.ok ?_)
  rw [← places, LinkedTable.render]
  show _ ++ _ ++ _ = _ ++ (markRecords anchors).flatMap _ ++ _
  rw [flatMap_render_markRecords]
  rfl

theorem settles_baseArray {anchors : List Anchor} (few : baseCount ≤ 65535) : Settles (baseArray baseCount anchors)
    (baseTable baseCount anchors).targets (baseTable baseCount anchors).render := by
  have sizes : (anchors.map Anchor.bytes).map List.length = anchors.map Anchor.size := by
    rw [List.map_map]
    exact List.map_congr_left fun anchor _ => anchor.bytes_length
  rw [baseTable, LinkedTable.index_targets, LinkedTable.index_render, List.length_map, sizes, baseArray,
    count16_of_le few, List.append_nil, ← List.flatMap_def]
  exact (Settles.advanceAll _ _).bind_last rfl

theorem settles_layout {marks bases : List GlyphId} {markAnchors : List (UInt16 × Anchor)} {baseAnchors : List Anchor}
    (markOrder : marks.Pairwise (· < ·)) (baseOrder : bases.Pairwise (· < ·)) (fewClasses : classCount ≤ 65535)
    (fewMarks : marks.length ≤ 65535) (fewBases : bases.length ≤ 65535) (all : markAnchors.length = marks.length) :
    Settles (layout classCount marks bases markAnchors baseAnchors)
      (plan classCount marks bases markAnchors baseAnchors).targets
      (plan classCount marks bases markAnchors baseAnchors).whole.render := by
  have markCovered := Coverage.encode_ofList markOrder fewMarks
  have baseCovered := Coverage.encode_ofList baseOrder fewBases
  have markArrays : Settles (markArray markAnchors) _ _ := settles_markArray (all ▸ fewMarks)
  have baseArrays : Settles (baseArray bases.length baseAnchors) _ _ := settles_baseArray fewBases
  have steps : layout classCount marks bases markAnchors baseAnchors = (do
      let markCoverageAt ← offset16 12
      let baseCoverageAt ← offset16 (12 + (Coverage.bytes marks).length)
      let arraysAt := 12 + (Coverage.bytes marks).length + (Coverage.bytes bases).length
      let markArrayAt ← offset16 arraysAt
      let markBytes ← markArray markAnchors
      let baseArrayAt ← offset16 (arraysAt + markBytes.length)
      let baseBytes ← baseArray bases.length baseAnchors
      return words16 [1, markCoverageAt, baseCoverageAt, .ofNat classCount, markArrayAt, baseArrayAt] ++
        Coverage.bytes marks ++ Coverage.bytes bases ++ markBytes ++ baseBytes) := by
    rw [layout, count16_of_le fewClasses, markCovered, baseCovered]
    rfl
  rw [steps]
  refine Settles.of_iff ((Settles.offset _).bind ((Settles.offset _).bind ((Settles.offset _).bind
    (markArrays.bind ((Settles.offset _).bind (baseArrays.bind_last ?_)))))) ?_
  · exact congrArg Except.ok outerTable_render.symm
  · simp only [TablePlan.targets, plan, outerTable_targets, List.flatMap_cons, List.flatMap_nil, List.append_nil,
      inReach_append, inReach_cons, inReach_nil]
    tauto

theorem counts_of_layout {marks bases : List GlyphId} {markAnchors : List (UInt16 × Anchor)} {baseAnchors : List Anchor}
    (markOrder : marks.Pairwise (· < ·)) (baseOrder : bases.Pairwise (· < ·))
    (written : layout classCount marks bases markAnchors baseAnchors = .ok bytes) :
    classCount ≤ 65535 ∧ marks.length ≤ 65535 ∧ bases.length ≤ 65535 := by
  simp only [layout, bind_eq_ok_iff] at written
  obtain ⟨_, classes, _, _, _, markCovered, _, _, _, baseCovered, _⟩ := written
  have fewMarks := Coverage.exists_encode_ofSet_iff.mp ⟨_, markCovered⟩
  have fewBases := Coverage.exists_encode_ofSet_iff.mp ⟨_, baseCovered⟩
  rw [GlyphSet.toList_ofList markOrder] at fewMarks
  rw [GlyphSet.toList_ofList baseOrder] at fewBases
  exact ⟨(count16_eq_ok_iff.mp classes).1, fewMarks, fewBases⟩

end MarkAttachment

namespace ChainedContext

theorem length_sets (context : ChainedContext) :
    context.sets.length = context.backtrack.length + context.input.length + context.lookahead.length := by
  rw [sets, List.length_append, List.length_append, List.length_reverse]

/-- Three counts, each with links to as many coverages, and the actions. -/
def linked (context : ChainedContext) (actions : List (UInt16 × UInt16)) : LinkedTable where
  header := .bytes (word16 3 ++ word16 (.ofNat context.backtrack.length)) ::
    (HeaderPart.links 0 context.backtrack.length ++ .bytes (word16 (.ofNat context.input.length)) ::
    (HeaderPart.links context.backtrack.length context.input.length ++
      .bytes (word16 (.ofNat context.lookahead.length)) ::
    (HeaderPart.links (context.backtrack.length + context.input.length) context.lookahead.length ++
      [.bytes (word16 (.ofNat actions.length) ++ actions.flatMap actionBytes)])))
  blocks := context.sets.map fun set => Coverage.bytes set.toList
  linked := by
    intro block member
    simp only [List.mem_cons, List.mem_append, HeaderPart.link_mem_links, reduceCtorEq, List.not_mem_nil, or_false,
      false_or] at member
    rw [List.length_map, length_sets]
    omega

section Layout

variable {context : ChainedContext} {actions : List (UInt16 × UInt16)}

theorem linked_headerSize :
    (context.linked actions).headerSize = 10 + 2 * context.sets.length + 4 * actions.length := by
  have actionSize : (actions.flatMap actionBytes).length = actions.length * 4 :=
    length_flatMap_of_forall 4 fun _ _ => rfl
  simp only [LinkedTable.headerSize, linked, List.map_cons, List.map_append, List.map_nil, List.sum_cons,
    List.sum_append, List.sum_nil, HeaderPart.sum_size_links, HeaderPart.size, List.length_append, word16_length,
    actionSize, length_sets]
  omega

theorem linked_places : (List.range' 0 context.backtrack.length ++
      (List.range' context.backtrack.length context.input.length ++
        List.range' (context.backtrack.length + context.input.length) context.lookahead.length)).map
        (context.linked actions).positionOf =
    positions (10 + 2 * context.sets.length + 4 * actions.length) (context.coverages.map Coverage.size) := by
  have sizes : (context.linked actions).blocks.map List.length = context.coverages.map Coverage.size := by
    rw [linked, List.map_map, show context.coverages = context.sets.map Coverage.ofSet from rfl, List.map_map]
    exact List.map_congr_left fun set _ => Coverage.bytes_length _
  have count : 0 + context.sets.length = (context.linked actions).blocks.length := by
    rw [Nat.zero_add, linked, List.length_map]
  have all := (context.linked actions).map_positionOf count
  rw [List.drop_zero, sizes, LinkedTable.positionOf_zero, linked_headerSize] at all
  rw [← all, length_sets, Nat.add_assoc, ← List.range'_append_1, ← List.range'_append_1, Nat.zero_add]

theorem linked_targets : (context.linked actions).targets =
    positions (10 + 2 * context.sets.length + 4 * actions.length) (context.coverages.map Coverage.size) := by
  rw [← linked_places, List.map_append, List.map_append]
  simp only [LinkedTable.targets, linked, List.flatMap_cons, List.flatMap_append, List.flatMap_nil, List.append_nil,
    HeaderPart.flatMap_targets_links, HeaderPart.targets, List.nil_append]

theorem offsetBlock_of_le {offsets : List UInt16} (few : offsets.length ≤ 65535) :
    offsetBlock offsets = .ok (word16 (.ofNat offsets.length) ++ words16 offsets) := by
  rw [offsetBlock, count16_of_le few]
  rfl

theorem linked_render : (context.linked actions).render = word16 3 ++
    (word16 (.ofNat context.backtrack.length) ++
      words16 ((context.linked actions).offsets 0 context.backtrack.length)) ++
    (word16 (.ofNat context.input.length) ++
      words16 ((context.linked actions).offsets context.backtrack.length context.input.length)) ++
    (word16 (.ofNat context.lookahead.length) ++ words16 ((context.linked actions).offsets
      (context.backtrack.length + context.input.length) context.lookahead.length)) ++
    word16 (.ofNat actions.length) ++ actions.flatMap actionBytes ++
    (context.sets.map fun set => Coverage.bytes set.toList).flatten := by
  simp only [LinkedTable.render, LinkedTable.offsets, ← HeaderPart.flatMap_render_links]
  simp only [linked, List.flatMap_cons, List.flatMap_append, List.flatMap_nil, HeaderPart.render, List.append_assoc,
    List.append_nil]

theorem settles_layout (fewBacktrack : context.backtrack.length ≤ 65535) (fewInput : context.input.length ≤ 65535)
    (fewLookahead : context.lookahead.length ≤ 65535) (fewActions : actions.length ≤ 65535)
    (sizes : ∀ set ∈ context.sets, set.toList.length ≤ 65535) :
    Settles (context.layout actions) (context.linked actions).targets (context.linked actions).render := by
  have covered : context.coverages.mapM Coverage.encode =
      .ok (context.sets.map fun set => Coverage.bytes set.toList) := by
    rw [mapM_eq_ok_iff, show context.coverages = context.sets.map Coverage.ofSet from rfl,
      List.forall₂_map_left_iff, List.forall₂_map_right_iff, List.forall₂_same]
    exact fun set member => Coverage.encode_ofSet (sizes set member)
  have count : context.coverages.length = context.sets.length := List.length_map ..
  rw [linked_targets, layout, count]
  refine (Settles.advanceAll _ _).bind_last ?_
  -- The offsets are cut behind the backtrack and behind the input, where their links were put together.
  have backtrackCount := (context.linked actions).length_offsets 0 context.backtrack.length
  have inputCount := (context.linked actions).length_offsets context.backtrack.length context.input.length
  have lookaheadCount := (context.linked actions).length_offsets (context.backtrack.length + context.input.length)
    context.lookahead.length
  rw [← linked_places, linked_render]
  simp only [List.map_append]
  rw [← LinkedTable.offsets, ← LinkedTable.offsets, ← LinkedTable.offsets, List.take_left' backtrackCount,
    List.drop_left' backtrackCount, List.take_left' inputCount, List.drop_left' inputCount,
    offsetBlock_of_le (by rwa [backtrackCount]), offsetBlock_of_le (by rwa [inputCount]),
    offsetBlock_of_le (by rwa [lookaheadCount]), count16_of_le fewActions, covered, backtrackCount, inputCount,
    lookaheadCount]
  rfl

theorem counts_of_layout (all : actions.length = context.actions.length)
    (written : context.layout actions = .ok bytes) :
    (context.backtrack.length ≤ 65535 ∧ context.input.length ≤ 65535 ∧ context.lookahead.length ≤ 65535) ∧
      context.actions.length ≤ 65535 ∧ ∀ set ∈ context.sets, set.toList.length ≤ 65535 := by
  obtain ⟨places, sizes, fewActions⟩ := (exists_layout_iff all).mp ⟨bytes, written⟩
  -- The first coverage stands behind the offsets of all of them, so that those can be counted.
  have few : context.sets.length ≤ 65535 := by
    rcases Nat.eq_zero_or_pos context.sets.length with none | some
    · omega
    · have first := places 0 some
      rw [coverageAt] at first
      omega
  rw [length_sets] at few
  exact ⟨by omega, fewActions, sizes⟩

end Layout

end ChainedContext

end Kashida
