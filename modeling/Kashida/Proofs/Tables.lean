import Kashida.Proofs.Bytes.Placement
import Kashida.Tables.Anchor
import Kashida.Tables.Coverage

/-! Anchors and coverages read back. -/
namespace Kashida

namespace Anchor

theorem bytes_length (anchor : Anchor) : anchor.bytes.length = anchor.size := by
  cases anchor <;> rfl

theorem reads_variation (index : DeltaSetIndex) : Reads readVariation (variationBytes index) index := by
  rw [variationBytes, List.append_assoc]
  exact (Reads.word16 _).step.bind ((Reads.word16 _).step.bind ((Reads.word16 _).step.bind_last
    ((Reads.check rfl).bind_last (Reads.pure _))))

theorem reads (anchor : Anchor) : Reads read anchor.bytes anchor := by
  cases anchor with
  | fixed x y =>
    simp only [bytes, List.append_assoc]
    exact (Reads.word16 1).step.bind ((Reads.int16 x).step.bind ((Reads.int16 y).step.bind_last (Reads.pure _)))
  | «variable» x y xVariation yVariation =>
    simp only [bytes, List.append_assoc]
    refine (Reads.word16 3).step.bind ((Reads.int16 x).step.bind ((Reads.int16 y).step.bind
      ((Reads.word16 xDeviceOffset).step.bind ((Reads.word16 yDeviceOffset).step.bind ?_))))
    exact (Reads.check rfl).bind ((reads_variation _).bind ((reads_variation _).bind_last (Reads.pure _)))

/-- Offsets lead to their anchors, which follow one another. -/
theorem locate_all (origin : Nat) (front back : List UInt8) {anchors : List Anchor} {offsets : List UInt16}
    (placed : List.Forall₂ (fun position offset => offset16 position = .ok offset)
      (DeltaSets.positions front.length (anchors.map Anchor.size)) offsets) :
    ∃ located, List.Forall₂ (fun offset table => Scope.locate ⟨origin, front ++ anchors.flatMap Anchor.bytes ++ back⟩
        Anchor.read offset = .ok table) offsets located ∧ located.map Located.table = anchors ∧
      Contiguous (origin + front.length) located (origin + (front ++ anchors.flatMap Anchor.bytes).length) := by
  have sizes : anchors.map Anchor.size = (anchors.map Anchor.bytes).map List.length := by
    simp only [List.map_map, Function.comp_def, Anchor.bytes_length]
  have found : List.Forall₂ (Reads Anchor.read) (anchors.map Anchor.bytes) anchors := by
    rw [List.forall₂_map_left_iff, List.forall₂_same]
    exact fun anchor _ => anchor.reads
  rw [sizes] at placed
  exact locate_blocks origin front back placed found

end Anchor

theorem GlyphSet.toList_ofList {glyphs : List GlyphId} (ascending : glyphs.Pairwise (· < ·)) :
    (ofList glyphs).toList = glyphs := by
  have same : ofList glyphs = ⟨glyphs, ascending⟩ := GlyphSet.ext fun _ => mem_ofList
  rw [same]

namespace Coverage

theorem ofList_of_ascending {glyphs : List GlyphId} (ascending : glyphs.Pairwise (· < ·)) :
    ofList glyphs = ⟨glyphs⟩ := by
  rw [ofList, ofSet, GlyphSet.toList_ofList ascending]

theorem size_ofSet (set : GlyphSet) : (ofSet set).size = 4 + 2 * set.toList.length := rfl

theorem encode_reads {coverage : Coverage} (encoded : coverage.encode = .ok bytes) :
    bytes.length = coverage.size ∧ Reads read bytes coverage := by
  unfold encode at encoded
  split at encoded
  · simp only [bind_eq_ok_iff, pure_eq_ok_iff] at encoded
    obtain ⟨count, counted, rfl⟩ := encoded
    have number := (count16_eq_ok_iff.mp counted).2
    refine ⟨?_, ?_⟩
    · simp only [List.length_append, word16_length, words16_length, size, sizeFor]
      omega
    · rw [List.append_assoc]
      refine (Reads.word16 1).step.bind ((Reads.word16 count).step.bind ?_)
      rw [number]
      exact (Reads.words16 coverage.glyphs).step.bind_last (Reads.pure _)
  · cases encoded

theorem isAscending_iff {glyphs : List GlyphId} : isAscending glyphs = true ↔ glyphs.Pairwise (· < ·) := by
  fun_induction isAscending glyphs with
  | case1 first second rest ih =>
    simp only [Bool.and_eq_true, decide_eq_true_eq, ih, List.pairwise_cons (a := first), List.forall_mem_cons]
    constructor
    · rintro ⟨less, pairwise⟩
      exact ⟨⟨less, fun glyph later => UInt16.lt_trans less (List.rel_of_pairwise_cons pairwise later)⟩, pairwise⟩
    · rintro ⟨⟨less, _⟩, pairwise⟩
      exact ⟨less, pairwise⟩
  | case2 glyphs short =>
    match glyphs, short with
    | [], _ => simp
    | [first], _ => simp
    | first :: second :: rest, short => exact (short first second rest rfl).elim

theorem exists_encode_ofSet_iff {set : GlyphSet} :
    (∃ bytes, (ofSet set).encode = .ok bytes) ↔ set.toList.length ≤ 65535 := by
  have ascending : isAscending (ofSet set).glyphs = true := isAscending_iff.mpr set.ascending
  simp only [encode, ascending, if_true, bind_eq_ok_iff, pure_eq_ok_iff]
  rw [← exists_count16_iff]
  constructor
  · rintro ⟨_, count, counted, _⟩
    exact ⟨count, counted⟩
  · rintro ⟨count, counted⟩
    exact ⟨_, count, counted, rfl⟩

end Coverage

end Kashida
