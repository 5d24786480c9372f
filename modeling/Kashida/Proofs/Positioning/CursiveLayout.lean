import Kashida.Proofs.Positioning.CursiveReader

/-! Where a cursive table stores its anchors: behind the coverage, one behind the other in the order of the records, and
none at all for a side without an anchor. -/
namespace Kashida

namespace CursiveAttachment

/-- The sides of glyphs in the order of the records, entry before exit. -/
def sides (glyphs : List GlyphId) : List (GlyphId × CursiveSide) :=
  glyphs.flatMap fun glyph => [(glyph, .entry), (glyph, .exit)]

theorem sides_length (glyphs : List GlyphId) : (sides glyphs).length = 2 * glyphs.length := by
  induction glyphs with
  | nil => rfl
  | cons glyph glyphs ih =>
    simp only [sides, List.flatMap_cons, List.length_append, List.length_cons, List.length_nil] at ih ⊢
    omega

theorem getElem?_sides {glyphs : List GlyphId} {place : Nat} (found : glyphs[place]? = some glyph)
    (side : CursiveSide) : (sides glyphs)[2 * place + side.place]? = some (glyph, side) := by
  induction glyphs generalizing place with
  | nil => cases found
  | cons first glyphs ih =>
    cases place with
    | zero =>
      cases found
      cases side <;> rfl
    | succ place =>
      have later : 2 * (place + 1) + side.place = 2 * place + side.place + 2 := by omega
      rw [later]
      exact ih found

open VariationM

/-- The anchor of one side of a glyph, with the delta sets before and after it. -/
def Computes (font : Font) (table : CursiveAttachment) (place : GlyphId × CursiveSide) (before : DeltaSets)
    (anchor : Option Anchor) (after : DeltaSets) : Prop :=
  (table.anchor font place.2 place.1).run before = (.ok anchor, after)

theorem Computes.eq_none_iff {font : Font} {table : CursiveAttachment} {anchor : Option Anchor}
    (computes : table.Computes font (glyph, side) before anchor after) :
    anchor = none ↔ table.anchorAt font side glyph .zero .zero = .ok none := by
  obtain ⟨base, middle, first, run⟩ := run_bind_eq_ok_iff.mp computes
  obtain ⟨found, rfl⟩ := run_resolve_eq_ok_iff.mp first
  rw [anchorAt, found]
  cases base with
  | none =>
    obtain ⟨rfl, _⟩ := run_pure_eq_ok_iff.mp run
    exact ⟨fun _ => rfl, fun _ => rfl⟩
  | some base =>
    -- A base gives an anchor, or else the position at rest fails.
    obtain ⟨default, _, second, run⟩ := run_bind_eq_ok_iff.mp run
    obtain ⟨name, _, _, run⟩ := run_bind_eq_ok_iff.mp run
    obtain ⟨varying, _, rfl⟩ := run_map_eq_ok_iff.mp run
    obtain ⟨atRest, _⟩ := run_resolve_eq_ok_iff.mp second
    have present : (some <$> table.position font side glyph base .zero .zero : Except ResolveError (Option Point)) =
        .ok (some default) := by
      rw [atRest]
      rfl
    simp only [reduceCtorEq, false_iff]
    intro absent
    cases present.symm.trans absent

theorem run_encode {font : Font} {table : CursiveAttachment} {before after : DeltaSets}
    (success : (table.encode font).run before = (.ok bytes, after)) : ∃ anchors,
      Threaded (table.Computes font) before (sides table.anchors.keys) anchors after ∧
      layout table.anchors.keys anchors = .ok bytes := by
  obtain ⟨ends, middle, run, last⟩ := run_bind_eq_ok_iff.mp success
  obtain ⟨written, rfl⟩ := run_write_eq_ok_iff.mp last
  refine ⟨ends.flatten, Threaded.flatten ((run_mapM run).imp ?_), written⟩
  intro glyph before pair after run
  obtain ⟨entry, _, entryRun, run⟩ := run_bind_eq_ok_iff.mp run
  obtain ⟨exit, _, exitRun, run⟩ := run_bind_eq_ok_iff.mp run
  obtain ⟨rfl, rfl⟩ := run_pure_eq_ok_iff.mp run
  exact .cons entryRun (.cons exitRun .nil)

/-- The bytes of a cursive table read back. The coverage lists the glyphs in ascending order, and the anchors are those
computed for the entry and the exit of each glyph in turn. An offset is zero exactly where there is no anchor at rest,
and otherwise leads to the anchor; the anchors lie one behind the other from the coverage to the end. -/
theorem encoded_anchors_follow_coverage (font : Font) (table : CursiveAttachment) (before after : DeltaSets)
    (bytes : List UInt8) (success : (table.encode font).run before = (.ok bytes, after)) :
    ∃ located anchors, LocatedCursive.read (.ofBytes bytes) = .ok located ∧
      located.coverage.table.glyphs = table.anchors.keys ∧ table.anchors.keys.Pairwise (· < ·) ∧
      Threaded (table.Computes font) before (sides table.anchors.keys) anchors after ∧
      located.anchors.map (Option.map Located.table) = anchors ∧
      (∀ place glyph side, table.anchors.keys[place]? = some glyph → ∃ offset found,
        located.offsets[2 * place + side.place]? = some offset ∧
        located.anchors[2 * place + side.place]? = some found ∧
        (offset = 0 ↔ found = none) ∧ (offset = 0 ↔ table.anchorAt font side glyph .zero .zero = .ok none) ∧
        ∀ anchor ∈ found, anchor.start = offset.toNat) ∧
      Contiguous located.coverage.stop (located.anchors.filterMap id) bytes.length := by
  obtain ⟨anchors, computed, written⟩ := run_encode success
  have paired : anchors.length = 2 * table.anchors.keys.length := by
    rw [← computed.forall₂.length_eq, sides_length]
  obtain ⟨located, isRead, covered, tables, contiguous⟩ := locate_layout table.keys_ascending paired written 0 []
  rw [List.append_nil] at isRead
  rw [Nat.zero_add] at contiguous
  refine ⟨located, anchors, isRead, covered, table.keys_ascending, computed, tables, ?_, contiguous⟩
  intro place glyph side present
  obtain ⟨anchor, atPlace, _, _, computes⟩ := exists_getElem?_of_forall₂ computed.forall₂ (getElem?_sides present side)
  rw [← tables, List.getElem?_map, Option.map_eq_some_iff] at atPlace
  obtain ⟨found, atPlace, rfl⟩ := atPlace
  simp only [LocatedCursive.read, bind_eq_ok_iff, pure_eq_ok_iff, mapM_eq_ok_iff] at isRead
  obtain ⟨⟨_, offsets⟩, _, _, _, _, each, rfl⟩ := isRead
  obtain ⟨offset, atOffset, located⟩ := exists_getElem?_of_forall₂ each.flip atPlace
  obtain ⟨zero, start⟩ := Scope.of_locate?_eq_ok located
  refine ⟨offset, found, atOffset, atPlace, zero, ?_, fun anchor member => ?_⟩
  · rw [zero, ← computes.eq_none_iff, Option.map_eq_none_iff]
  · rw [start anchor member]
    exact Nat.zero_add _

/-- Two glyphs. The first is entered at the origin and never left; the second elongates to the left. -/
def originFont : Font where
  glyphs := .ofList [("alef", 3), ("beh", 4)]
  shapes := fun glyph _ _ => some ⟨glyph, .zero, ∅⟩
  limits := LimitTable.insert {} "beh" ⟨.negOne, .one, .zero, .zero⟩

def originAttachment : CursiveAttachment where
  name := "join"
  anchors := (∅ : Std.TreeMap GlyphId CursiveEnds).insert 3 ⟨some (.point .zero), none⟩
    |>.insert 4 ⟨some (.point ⟨-30, 40⟩), some (.point ⟨0, 7⟩)⟩

/-- An anchor at the origin has an offset, and an absent one has none. -/
theorem encoded_anchors_follow_coverage_at_origin : ∃ bytes after located,
    (originAttachment.encode originFont).run originFont.deltaSets = (.ok bytes, after) ∧
    LocatedCursive.read (.ofBytes bytes) = .ok located ∧ located.coverage.table.glyphs = [3, 4] ∧
    (∃ offset, located.offsets[0]? = some offset ∧ offset ≠ 0) ∧ located.offsets[1]? = some 0 := by
  have succeeds : ((originAttachment.encode originFont).run originFont.deltaSets).1.isOk = true := by decide +kernel
  have keys : originAttachment.anchors.keys = [3, 4] := by decide +kernel
  have entered : originAttachment.anchorAt originFont .entry 3 .zero .zero ≠ .ok none := by decide +kernel
  have exited : originAttachment.anchorAt originFont .exit 3 .zero .zero = .ok none := by decide +kernel
  generalize ran : (originAttachment.encode originFont).run originFont.deltaSets = result at succeeds
  obtain ⟨outcome, after⟩ := result
  obtain ⟨bytes, rfl⟩ := exists_of_isOk succeeds
  obtain ⟨located, _, isRead, covered, _, _, _, each, _⟩ :=
    encoded_anchors_follow_coverage originFont originAttachment originFont.deltaSets after bytes ran
  rw [keys] at covered each
  obtain ⟨entry, _, atEntry, _, _, isEntry, _⟩ := each 0 3 .entry rfl
  obtain ⟨exit, _, atExit, _, _, isExit, _⟩ := each 0 3 .exit rfl
  rw [isExit.mpr exited] at atExit
  exact ⟨bytes, after, located, rfl, isRead, covered, ⟨entry, atEntry, fun zero => entered (isEntry.mp zero)⟩, atExit⟩

end CursiveAttachment

end Kashida
