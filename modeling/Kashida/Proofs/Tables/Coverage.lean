import Kashida.Proofs.Bytes.Consuming
import Kashida.Proofs.Tables

/-! Coverages in both directions: the bytes of a coverage read back as the coverage, and a coverage that was read is
written with the bytes that were read, if its glyphs ascend. The search finds every glyph of an ascending coverage, and
in any coverage only what is there. -/
namespace Kashida

theorem lt_iff_of_ascending {glyphs : List GlyphId} {first second : Nat} {low high : GlyphId}
    (ascending : glyphs.Pairwise (· < ·)) (one : glyphs[first]? = some low) (other : glyphs[second]? = some high) :
    low < high ↔ first < second := by
  obtain ⟨firstInside, rfl⟩ := List.getElem?_eq_some_iff.mp one
  obtain ⟨secondInside, rfl⟩ := List.getElem?_eq_some_iff.mp other
  have ordered := List.pairwise_iff_getElem.mp ascending
  constructor
  · intro less
    rcases Nat.lt_trichotomy first second with before | rfl | behind
    · exact before
    · exact absurd less (UInt16.lt_irrefl _)
    · exact absurd (UInt16.lt_trans less (ordered second first secondInside firstInside behind)) (UInt16.lt_irrefl _)
  · exact ordered first second firstInside secondInside

/-- A glyph is no smaller than the number of glyphs before it. -/
theorem le_of_ascending {glyphs : List GlyphId} {place : Nat} {glyph : GlyphId} (ascending : glyphs.Pairwise (· < ·))
    (found : glyphs[place]? = some glyph) : place ≤ glyph.toNat := by
  induction place generalizing glyph with
  | zero => exact Nat.zero_le _
  | succ place ih =>
    have inside : place < glyphs.length := Nat.lt_of_succ_lt (List.getElem?_eq_some_iff.mp found).1
    have before : glyphs[place]? = some glyphs[place] := List.getElem?_eq_getElem inside
    have less : glyphs[place].toNat < glyph.toNat := (lt_iff_of_ascending ascending before found).mpr place.lt_succ_self
    exact Nat.lt_of_le_of_lt (ih before) less

/-- There are only so many glyphs. -/
theorem length_le_of_ascending {glyphs : List GlyphId} (ascending : glyphs.Pairwise (· < ·)) :
    glyphs.length ≤ 65536 := by
  rcases Nat.eq_zero_or_pos glyphs.length with none | some
  · omega
  · have inside : glyphs.length - 1 < glyphs.length := by omega
    have last := le_of_ascending ascending (List.getElem?_eq_getElem inside)
    have bound := (glyphs[glyphs.length - 1]).toNat_lt
    omega

namespace Coverage

/-- Halving keeps the place of a glyph in its range. -/
theorem halve_eq {glyphs : List GlyphId} {glyph : GlyphId} {base size place : Nat}
    (ascending : glyphs.Pairwise (· < ·)) (found : glyphs[place]? = some glyph) (low : base ≤ place)
    (high : place < base + size) (inside : base + size ≤ glyphs.length) :
    halve glyphs.toArray glyph base size = place := by
  fun_induction halve glyphs.toArray glyph base size with
  | case1 base size more half middle ih =>
    have reached : middle < glyphs.length := by omega
    have atMiddle : glyphs.toArray.getD middle 0 = glyphs[middle] := by
      rw [Array.getD_eq_getD_getElem?, List.getElem?_toArray, List.getElem?_eq_getElem reached, Option.getD_some]
    have order : glyph < glyphs.toArray.getD middle 0 ↔ place < middle := by
      rw [atMiddle]
      exact lt_iff_of_ascending ascending found (List.getElem?_eq_getElem reached)
    by_cases before : glyph < glyphs.toArray.getD middle 0
    · have left := order.mp before
      rw [if_pos before]
      rw [dif_pos before] at ih
      exact ih low (by omega) (by omega)
    · have right := mt order.mpr before
      rw [if_neg before]
      rw [dif_neg before] at ih
      exact ih (by omega) (by omega) (by omega)
  | case2 base size last => omega

theorem indexOf?_eq_some_iff {coverage : Coverage} {glyph : GlyphId} {index : UInt16} :
    coverage.indexOf? glyph = some index ↔
      halve coverage.glyphs.toArray glyph 0 coverage.glyphs.length = index.toNat ∧
        coverage.glyphs[index.toNat]? = some glyph := by
  simp only [indexOf?, List.size_toArray, List.getElem?_toArray]
  generalize halve coverage.glyphs.toArray glyph 0 coverage.glyphs.length = place
  have bound := index.toNat_lt
  constructor
  · intro found
    split at found
    · rename_i there
      cases found
      have same : (UInt16.ofNat place).toNat = place := by
        rw [UInt16.toNat_ofNat']
        omega
      exact ⟨same.symm, same.symm ▸ there.1⟩
    · cases found
  · rintro ⟨rfl, there⟩
    rw [if_pos ⟨there, by omega⟩, UInt16.ofNat_toNat]

/-- In ascending order every glyph is found at its place. -/
theorem indexOf?_of_ascending {coverage : Coverage} (ascending : coverage.glyphs.Pairwise (· < ·)) {glyph : GlyphId}
    {place : Nat} :
    (coverage.indexOf? glyph).map UInt16.toNat = some place ↔ coverage.glyphs[place]? = some glyph := by
  rw [Option.map_eq_some_iff]
  constructor
  · rintro ⟨index, found, rfl⟩
    exact (indexOf?_eq_some_iff.mp found).2
  · intro there
    have inside := (List.getElem?_eq_some_iff.mp there).1
    have few := length_le_of_ascending ascending
    have same : (UInt16.ofNat place).toNat = place := by
      rw [UInt16.toNat_ofNat']
      omega
    refine ⟨.ofNat place, indexOf?_eq_some_iff.mpr ?_, same⟩
    rw [same]
    exact ⟨halve_eq ascending there (Nat.zero_le _) (by omega) (by omega), there⟩

theorem encode_of_not_ascending {coverage : Coverage} (disordered : ¬coverage.glyphs.Pairwise (· < ·)) :
    coverage.encode = .error .unsorted := by
  rw [encode, if_neg (mt isAscending_iff.mp disordered)]

theorem encode_of_many {coverage : Coverage} (ascending : coverage.glyphs.Pairwise (· < ·))
    (many : 65535 < coverage.glyphs.length) : coverage.encode = .error .badValue := by
  rw [encode, if_pos (isAscending_iff.mpr ascending), count16, if_neg (by omega)]
  rfl

/-- The bytes that were read for a coverage are its own, if its glyphs ascend. -/
theorem consumes_of_read {cursor after : Cursor} {coverage : Coverage} (run : cursor.run read = (.ok coverage, after)) :
    ∃ bytes, cursor.Consumes bytes after ∧
      (coverage.glyphs.Pairwise (· < ·) → coverage.encode = .ok bytes) := by
  obtain ⟨format, behindFormat, formatRun, run⟩ := Cursor.run_bind_eq_ok_iff.mp run
  by_cases first : format = 1
  · rw [if_pos first] at run
    obtain ⟨count, behindCount, countRun, run⟩ := Cursor.run_bind_eq_ok_iff.mp run
    obtain ⟨glyphs, behindGlyphs, glyphsRun, run⟩ := Cursor.run_bind_eq_ok_iff.mp run
    obtain ⟨rfl, rfl⟩ := Cursor.run_pure_eq_ok_iff.mp run
    rw [Cursor.run_step_eq_ok_iff] at formatRun countRun glyphsRun
    obtain ⟨number, glyphsConsumed⟩ := Cursor.consumes_of_words16 glyphsRun
    have headConsumed := (Cursor.consumes_of_word16 formatRun).append (Cursor.consumes_of_word16 countRun)
    refine ⟨_, headConsumed.append glyphsConsumed, fun ascending => ?_⟩
    have counted : count16 glyphs.length = .ok count := by
      have bound := count.toNat_lt
      exact count16_eq_ok_iff.mpr ⟨by omega, number.symm⟩
    rw [encode, if_pos (isAscending_iff.mpr ascending), counted, first]
    rfl
  · rw [if_neg first] at run
    cases run

end Coverage

/-- Coverages are inverted in both directions. The coverage of listed glyphs holds exactly these, ascending. Writing it
adds its size in bytes to a buffer if it has at most 65535 glyphs, and fails otherwise; wherever these bytes stand they
read back as the coverage, and a reader moves exactly past them. Its search gives the place of every glyph. The bytes
that any coverage was read from are those that it is written with, unless its glyphs do not ascend; it is then refused,
and a place that the search gives is still the place of the glyph. -/
theorem Coverage.coverages_are_inverted :
    (∀ glyphs : List GlyphId, (ofList glyphs).glyphs.Pairwise (· < ·) ∧
      (∀ glyph, glyph ∈ (ofList glyphs).glyphs ↔ glyph ∈ glyphs) ∧
      ((ofList glyphs).glyphs.length ≤ 65535 → ∃ bytes, bytes.length = (ofList glyphs).size ∧
        (∀ buffer, (ofList glyphs).write buffer = (.ok (), buffer.append bytes)) ∧
        ∀ base front back, (Cursor.mk ⟨base, front ++ bytes ++ back⟩ front.length).run read =
          (.ok (ofList glyphs), ⟨⟨base, front ++ bytes ++ back⟩, front.length + (ofList glyphs).size⟩)) ∧
      (65535 < (ofList glyphs).glyphs.length → ∀ buffer, ((ofList glyphs).write buffer).1 = .error .badValue) ∧
      ∀ glyph place, ((ofList glyphs).indexOf? glyph).map UInt16.toNat = some place ↔
        (ofList glyphs).glyphs[place]? = some glyph) ∧
    ∀ (cursor after : Cursor) (coverage : Coverage), cursor.run read = (.ok coverage, after) →
      (∃ bytes, cursor.Consumes bytes after ∧ (coverage.glyphs.Pairwise (· < ·) →
        ∀ buffer, coverage.write buffer = (.ok (), buffer.append bytes))) ∧
      (¬coverage.glyphs.Pairwise (· < ·) → ∀ buffer, coverage.write buffer = (.error .unsorted, buffer)) ∧
      ∀ glyph index, coverage.indexOf? glyph = some index → coverage.glyphs[index.toNat]? = some glyph := by
  constructor
  · intro glyphs
    have ascending : (ofList glyphs).glyphs.Pairwise (· < ·) := (GlyphSet.ofList glyphs).ascending
    refine ⟨ascending, fun glyph => GlyphSet.mem_ofList, ?_, ?_, fun glyph place => indexOf?_of_ascending ascending⟩
    · intro few
      obtain ⟨bytes, encoded⟩ := exists_encode_ofSet_iff.mpr few
      obtain ⟨length, reads⟩ := encode_reads encoded
      refine ⟨bytes, length, ?_, ?_⟩
      · intro buffer
        rw [write, ofList, encoded]
      · intro base front back
        exact length ▸ reads base front back
    · intro many buffer
      rw [write, encode_of_many ascending many]
  · intro cursor after coverage run
    obtain ⟨bytes, consumes, encoded⟩ := consumes_of_read run
    refine ⟨⟨bytes, consumes, ?_⟩, ?_, fun glyph index found => (indexOf?_eq_some_iff.mp found).2⟩
    · intro ascending buffer
      rw [write, encoded ascending]
    · intro disordered buffer
      rw [write, encode_of_not_ascending disordered]

/-- Glyphs out of order: the table is read and searched, but not written again. The search misses the first glyph and
finds the last at its place. -/
theorem Coverage.coverages_are_inverted_out_of_order : ∃ coverage after,
    (Scope.ofBytes [0, 1, 0, 3, 0, 40, 0, 3, 0, 17]).cursor.run read = (.ok coverage, after) ∧
    coverage.glyphs = [40, 3, 17] ∧ (∀ buffer, coverage.write buffer = (.error .unsorted, buffer)) ∧
    coverage.indexOf? 40 = none ∧ coverage.indexOf? 17 = some 2 ∧ coverage.glyphs[2]? = some 17 := by
  have run : (Scope.ofBytes [0, 1, 0, 3, 0, 40, 0, 3, 0, 17]).cursor.run read =
      (.ok ⟨[40, 3, 17]⟩, ⟨.ofBytes [0, 1, 0, 3, 0, 40, 0, 3, 0, 17], 10⟩) := by decide +kernel
  have missed : (Coverage.mk [40, 3, 17]).indexOf? 40 = none := by decide +kernel
  have found : (Coverage.mk [40, 3, 17]).indexOf? 17 = some 2 := by decide +kernel
  obtain ⟨_, refused, sound⟩ := coverages_are_inverted.2 _ _ _ run
  exact ⟨_, _, run, rfl, refused (by decide), missed, found, sound 17 2 found⟩

end Kashida
