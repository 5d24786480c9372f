import Kashida.Positioning.Cursive
import Kashida.Proofs.Tables
import Kashida.Proofs.Variation.Steps

/-! Cursive tables read back. The reader follows the published layout: a coverage and two offsets for each covered
glyph, where offset zero stands for no anchor. -/
namespace Kashida

/-- A cursive table as its bytes describe it: the covered glyphs, and an entry and an exit for each of them in turn. -/
structure StoredCursive where
  glyphs : List GlyphId
  anchors : List (Option Anchor)
deriving DecidableEq

/-- The place of a side among the anchors of a glyph. -/
def CursiveSide.place : CursiveSide → Nat
  | .entry => 0
  | .exit => 1

namespace StoredCursive

/-- The offset of the coverage and those of the anchors. -/
def readHeader : ReadM ParseError (UInt16 × List UInt16) := do
  let format ← Cursor.step Cursor.word16
  if format = 1 then
    let coverageAt ← Cursor.step Cursor.word16
    let count ← Cursor.step Cursor.word16
    let offsets ← Cursor.step (Cursor.words16 (2 * count.toNat))
    return (coverageAt, offsets)
  else throw .badVersion

def readAnchor (scope : Scope) (offset : UInt16) : Except ParseError (Option Anchor) :=
  if offset = 0 then .ok none
  else do
    let (anchor, _) ← scope.readAt offset.toNat Anchor.read
    return some anchor

def read (scope : Scope) : Except ParseError StoredCursive := do
  let ((coverageAt, offsets), _) ← scope.readAt 0 readHeader
  let (coverage, _) ← scope.readAt coverageAt.toNat Coverage.read
  let anchors ← offsets.mapM (readAnchor scope)
  return ⟨coverage.glyphs, anchors⟩

/-- The anchor of one side of a covered glyph. -/
def anchor? (stored : StoredCursive) (side : CursiveSide) (glyph : GlyphId) : Option (Option Anchor) := do
  let place ← stored.glyphs.idxOf? glyph
  stored.anchors[2 * place + side.place]?

end StoredCursive

/-- A cursive table with the places of what it holds. -/
structure LocatedCursive where
  coverage : Located Coverage
  offsets : List UInt16
  anchors : List (Option (Located Anchor))
deriving DecidableEq

def LocatedCursive.read (scope : Scope) : Except ParseError LocatedCursive := do
  let ((coverageAt, offsets), _) ← scope.readAt 0 StoredCursive.readHeader
  let coverage ← scope.locate Coverage.read coverageAt
  let anchors ← offsets.mapM (scope.locate? Anchor.read)
  return ⟨coverage, offsets, anchors⟩

namespace StoredCursive

theorem readAnchor_of_locate? {scope : Scope} {found : Option (Located Anchor)}
    (located : scope.locate? Anchor.read offset = .ok found) :
    readAnchor scope offset = .ok (found.map Located.table) := by
  unfold Scope.locate? at located
  unfold readAnchor
  split at located
  · rename_i zero
    cases located
    rw [if_pos zero]
    rfl
  · rename_i nonzero
    simp only [Scope.locate, map_eq_ok_iff, bind_eq_ok_iff, pure_eq_ok_iff] at located
    obtain ⟨_, ⟨⟨anchor, stop⟩, isRead, rfl⟩, rfl⟩ := located
    rw [if_neg nonzero, isRead]
    rfl

/-- Without the places. -/
theorem read_of_located {scope : Scope} {located : LocatedCursive} (found : LocatedCursive.read scope = .ok located) :
    read scope = .ok ⟨located.coverage.table.glyphs, located.anchors.map (Option.map Located.table)⟩ := by
  simp only [LocatedCursive.read, Scope.locate, bind_eq_ok_iff, pure_eq_ok_iff, mapM_eq_ok_iff] at found
  obtain ⟨header, headerRead, coverage, ⟨⟨table, stop⟩, coverageRead, rfl⟩, anchors, each, rfl⟩ := found
  simp only [read, bind_eq_ok_iff, pure_eq_ok_iff, mapM_eq_ok_iff]
  refine ⟨header, headerRead, _, coverageRead, _, ?_, rfl⟩
  rw [List.forall₂_map_right_iff]
  exact each.imp fun offset anchor located => readAnchor_of_locate? located

end StoredCursive

namespace CursiveAttachment

theorem placeAnchors_length {anchors : List (Option Anchor)} (placed : placeAnchors counter anchors = .ok offsets) :
    offsets.length = anchors.length := by
  induction anchors generalizing counter offsets with
  | nil =>
    cases placed
    rfl
  | cons first anchors ih =>
    cases first with
    | none =>
      simp only [placeAnchors, bind_eq_ok_iff, pure_eq_ok_iff] at placed
      obtain ⟨rest, placed, rfl⟩ := placed
      rw [List.length_cons, List.length_cons, ih placed]
    | some anchor =>
      simp only [placeAnchors, bind_eq_ok_iff, pure_eq_ok_iff] at placed
      obtain ⟨_, _, rest, placed, rfl⟩ := placed
      rw [List.length_cons, List.length_cons, ih placed]

/-- Every offset leads to its anchor, the anchors follow one another, and an absent anchor has offset zero. -/
theorem placeAnchors_locate (origin : Nat) (front back : List UInt8) {anchors : List (Option Anchor)}
    (start : 0 < front.length) (placed : placeAnchors ⟨front.length⟩ anchors = .ok offsets) :
    ∃ located : List (Option (Located Anchor)),
      List.Forall₂ (fun offset found => Scope.locate?
        ⟨origin, front ++ (anchors.filterMap id).flatMap Anchor.bytes ++ back⟩ Anchor.read offset = .ok found)
        offsets located ∧
      located.map (Option.map Located.table) = anchors ∧
      Contiguous (origin + front.length) (located.filterMap id)
        (origin + (front ++ (anchors.filterMap id).flatMap Anchor.bytes).length) := by
  induction anchors generalizing front offsets with
  | nil =>
    cases placed
    exact ⟨[], .nil, rfl, by simp [Contiguous]⟩
  | cons first anchors ih =>
    cases first with
    | none =>
      simp only [placeAnchors, bind_eq_ok_iff, pure_eq_ok_iff] at placed
      obtain ⟨rest, placed, rfl⟩ := placed
      obtain ⟨located, each, tables, contiguous⟩ := ih front start placed
      exact ⟨none :: located, .cons rfl each, by rw [List.map_cons, tables]; rfl, contiguous⟩
    | some anchor =>
      simp only [placeAnchors, OffsetCounter.advance, OffsetCounter.offset, bind_eq_ok_iff, pure_eq_ok_iff] at placed
      obtain ⟨⟨offset, next⟩, ⟨found, fits, same⟩, rest, placed, rfl⟩ := placed
      cases same
      have atFront := (offset16_eq_ok_iff.mp fits).2
      rw [← anchor.bytes_length, ← List.length_append] at placed
      obtain ⟨located, each, tables, contiguous⟩ :=
        ih (front ++ anchor.bytes) (by simp only [List.length_append]; omega) placed
      have whole : front ++ ((some anchor :: anchors).filterMap id).flatMap Anchor.bytes =
          front ++ anchor.bytes ++ (anchors.filterMap id).flatMap Anchor.bytes := by simp
      rw [whole]
      have stands : Stands (front ++ anchor.bytes ++ (anchors.filterMap id).flatMap Anchor.bytes ++ back) offset.toNat
          anchor.bytes := ⟨front, _, by rw [List.append_assoc _ _ back], atFront.symm⟩
      -- Offset zero would say that there is no anchor, but the header comes first.
      have nonzero : offset ≠ 0 := by
        rintro rfl
        exact absurd atFront (by simpa using Nat.ne_of_lt start)
      refine ⟨some ⟨anchor, origin + front.length, origin + (front ++ anchor.bytes).length⟩ :: located,
        .cons ?_ each, by rw [List.map_cons, tables]; rfl, ⟨rfl, contiguous⟩⟩
      rw [Scope.locate?, if_neg nonzero, Scope.locate, Stands.readAt ⟨origin, _⟩ stands anchor.reads, atFront,
        List.length_append, ← Nat.add_assoc]
      rfl

/-- The table is found part by part, whatever stands behind it. -/
theorem locate_layout {glyphs : List GlyphId} {anchors : List (Option Anchor)} (ascending : glyphs.Pairwise (· < ·))
    (paired : anchors.length = 2 * glyphs.length) (written : layout glyphs anchors = .ok bytes) (origin : Nat)
    (back : List UInt8) : ∃ located, LocatedCursive.read ⟨origin, bytes ++ back⟩ = .ok located ∧
      located.coverage.table.glyphs = glyphs ∧ located.anchors.map (Option.map Located.table) = anchors ∧
      Contiguous located.coverage.stop (located.anchors.filterMap id) (origin + bytes.length) := by
  simp only [layout, Coverage.ofList_of_ascending ascending, bind_eq_ok_iff, pure_eq_ok_iff] at written
  obtain ⟨coverageOffset, coverageFits, count, counted, offsets, placed, coverageBytes, covered, whole⟩ := written
  obtain ⟨coverageLength, coverageReads⟩ := Coverage.encode_reads covered
  have coverageAt := (count16_eq_ok_iff.mp coverageFits).2
  have number := (count16_eq_ok_iff.mp counted).2
  have offsetCount : offsets.length = 2 * count.toNat := by rw [placeAnchors_length placed, paired, number]
  obtain ⟨header, isHeader⟩ : ∃ header,
      header = word16 1 ++ (word16 coverageOffset ++ (word16 count ++ words16 offsets)) := ⟨_, rfl⟩
  have headerLength : header.length = 6 + 4 * glyphs.length := by
    simp only [isHeader, List.length_append, word16_length, words16_length, offsetCount, number]
    omega
  have frontLength : (header ++ coverageBytes).length = 6 + 4 * glyphs.length + (Coverage.mk glyphs).size := by
    rw [List.length_append, headerLength, coverageLength]
  have headerReads : Reads StoredCursive.readHeader header (coverageOffset, offsets) := by
    rw [isHeader]
    refine (Reads.word16 1).step.bind ((Reads.word16 _).step.bind ((Reads.word16 _).step.bind ?_))
    rw [← offsetCount]
    exact (Reads.words16 offsets).step.bind_last (Reads.pure _)
  rw [← frontLength] at placed
  obtain ⟨located, each, tables, contiguous⟩ :=
    placeAnchors_locate origin (header ++ coverageBytes) back (by omega) placed
  have parts : bytes = header ++ coverageBytes ++ (anchors.filterMap id).flatMap Anchor.bytes := by
    simp only [← whole, isHeader, List.append_assoc]
  rw [← parts] at each contiguous
  have headerStands : Stands (bytes ++ back) 0 header :=
    ⟨[], _, by rw [parts, List.append_assoc, List.append_assoc, List.nil_append], rfl⟩
  have coverageStands : Stands (bytes ++ back) coverageOffset.toNat coverageBytes :=
    ⟨header, _, by rw [parts, List.append_assoc _ _ back], by rw [headerLength, coverageAt]⟩
  have coverageRead := Stands.readAt ⟨origin, _⟩ coverageStands coverageReads
  refine ⟨⟨⟨⟨glyphs⟩, origin + coverageOffset.toNat, origin + coverageOffset.toNat + coverageBytes.length⟩, offsets,
    located⟩, ?_, rfl, tables, ?_⟩
  · simp only [LocatedCursive.read, Scope.locate, bind_eq_ok_iff, pure_eq_ok_iff, mapM_eq_ok_iff]
    exact ⟨_, Stands.readAt ⟨origin, _⟩ headerStands headerReads, _, ⟨_, coverageRead, rfl⟩, located, each, rfl⟩
  · have stop : origin + coverageOffset.toNat + coverageBytes.length = origin + (header ++ coverageBytes).length := by
      rw [List.length_append, headerLength, coverageAt, Nat.add_assoc]
    rwa [stop]

/-- The table reads back, whatever stands behind it. -/
theorem read_layout {glyphs : List GlyphId} {anchors : List (Option Anchor)} (ascending : glyphs.Pairwise (· < ·))
    (paired : anchors.length = 2 * glyphs.length) (written : layout glyphs anchors = .ok bytes) (origin : Nat)
    (back : List UInt8) : StoredCursive.read ⟨origin, bytes ++ back⟩ = .ok ⟨glyphs, anchors⟩ := by
  obtain ⟨located, found, covered, tables, _⟩ := locate_layout ascending paired written origin back
  rw [StoredCursive.read_of_located found, covered, tables]

/-- What a stored anchor has to say of one side of a glyph: it is absent where there is no anchor, and otherwise tells
where the anchor is at rest and at the ends of the axes. -/
def Attaches (font : Font) (table : CursiveAttachment) (side : CursiveSide) (glyph : GlyphId) (sets : DeltaSets) :
    Option Anchor → Prop
  | none => table.anchorAt font side glyph .zero .zero = .ok none
  | some anchor => table.anchorAt font side glyph .zero .zero = .ok (some anchor.point) ∧
      ∃ name position, font.glyphName glyph = .ok name ∧
        (∀ left right, table.anchorAt font side glyph left right = some <$> position left right) ∧
        anchor.Realizes font sets name position

theorem Attaches.lasting (font : Font) (table : CursiveAttachment) (side : CursiveSide) (glyph : GlyphId) :
    VariationM.Lasting (table.Attaches font side glyph) := by
  intro before after anchor grown attached
  cases anchor with
  | none => exact attached
  | some anchor =>
    obtain ⟨rest, name, position, named, same, realized⟩ := attached
    exact ⟨rest, name, position, named, same, realized.mono grown⟩

open VariationM

theorem anchor_yields (font : Font) (table : CursiveAttachment) (side : CursiveSide) (glyph : GlyphId) :
    Yields (table.anchor font side glyph) (table.Attaches font side glyph) := by
  refine (Yields.resolve _).bind .const fun found => ?_
  cases found with
  | none =>
    refine Yields.pure fun sets absent => ?_
    show table.anchorAt font side glyph .zero .zero = .ok none
    rw [anchorAt, absent]
    rfl
  | some point =>
    -- Once the rule gives an anchor at rest it gives one at every elongation.
    refine (Yields.resolve _).bind .const fun default => (Yields.resolve _).bind .const fun name => ?_
    refine (Anchor.varying_yields font name default _).map ?_
    rintro sets anchor ⟨rest, realized⟩ named atRest present
    have position : ∀ left right, table.anchorAt font side glyph left right =
        some <$> table.position font side glyph point left right := by
      intro left right
      rw [anchorAt, present]
      rfl
    refine ⟨?_, name, _, named, position, realized⟩
    rw [position, atRest, rest]
    rfl

/-- The entry and the exit of a glyph, in turn. -/
def AttachesEnds (font : Font) (table : CursiveAttachment) (glyph : GlyphId) (sets : DeltaSets)
    (ends : List (Option Anchor)) : Prop :=
  ∃ entry exit, ends = [entry, exit] ∧ table.Attaches font .entry glyph sets entry ∧
    table.Attaches font .exit glyph sets exit

theorem AttachesEnds.lasting (font : Font) (table : CursiveAttachment) (glyph : GlyphId) :
    Lasting (table.AttachesEnds font glyph) := by
  rintro before after ends grown ⟨entry, exit, same, entryAttached, exitAttached⟩
  exact ⟨entry, exit, same, Attaches.lasting font table .entry glyph _ _ _ grown entryAttached,
    Attaches.lasting font table .exit glyph _ _ _ grown exitAttached⟩

theorem ends_yields (font : Font) (table : CursiveAttachment) (glyph : GlyphId) :
    Yields (do return [← table.anchor font .entry glyph, ← table.anchor font .exit glyph])
      (table.AttachesEnds font glyph) := by
  refine (table.anchor_yields font .entry glyph).bind (Attaches.lasting font table .entry glyph) fun entry => ?_
  refine (table.anchor_yields font .exit glyph).bind (Attaches.lasting font table .exit glyph) fun exit => ?_
  exact Yields.pure fun sets exitAttached entryAttached => ⟨entry, exit, rfl, entryAttached, exitAttached⟩

theorem getElem?_flatten_ends (property : CursiveSide → GlyphId → Option Anchor → Prop) {glyphs : List GlyphId}
    {anchors : List (List (Option Anchor))}
    (each : List.Forall₂ (fun glyph ends => ∃ entry exit, ends = [entry, exit] ∧ property .entry glyph entry ∧
      property .exit glyph exit) glyphs anchors) :
    anchors.flatten.length = 2 * glyphs.length ∧ ∀ (place : Nat) (glyph : GlyphId) (side : CursiveSide),
      glyphs[place]? = some glyph →
        ∃ anchor, anchors.flatten[2 * place + side.place]? = some anchor ∧ property side glyph anchor := by
  induction each with
  | nil => exact ⟨rfl, fun place glyph side found => by cases found⟩
  | @cons first ends glyphs anchors here _ ih =>
    obtain ⟨entry, exit, rfl, entryHolds, exitHolds⟩ := here
    obtain ⟨length, found⟩ := ih
    refine ⟨by simp only [List.flatten_cons, List.length_append, List.length_cons, List.length_nil, length]; omega, ?_⟩
    intro place glyph side there
    cases place with
    | zero =>
      cases there
      cases side with
      | entry => exact ⟨entry, rfl, entryHolds⟩
      | exit => exact ⟨exit, rfl, exitHolds⟩
    | succ place =>
      obtain ⟨anchor, atPlace, holds⟩ := found place glyph side there
      have later : 2 * (place + 1) + side.place = 2 * place + side.place + 2 := by omega
      exact ⟨anchor, by rw [← atPlace, later]; rfl, holds⟩

theorem keys_ascending (table : CursiveAttachment) : table.anchors.keys.Pairwise (· < ·) :=
  Std.TreeMap.ordered_keys.imp fun less => Std.compare_eq_lt.mp less

/-- What the bytes of a cursive table say, wherever they stand. -/
def Decodes (font : Font) (table : CursiveAttachment) (sets : DeltaSets) (bytes : List UInt8) : Prop :=
  ∃ stored : StoredCursive, (∀ origin back, StoredCursive.read ⟨origin, bytes ++ back⟩ = .ok stored) ∧
    stored.glyphs = table.anchors.keys ∧ ∀ side, ∀ glyph ∈ table.anchors.keys, ∃ anchor,
      stored.anchor? side glyph = some anchor ∧ table.Attaches font side glyph sets anchor

theorem encode_yields (font : Font) (table : CursiveAttachment) : Yields (table.encode font) (table.Decodes font) := by
  refine (Yields.mapM (AttachesEnds.lasting font table) fun glyph _ => table.ends_yields font glyph).bind
    (.forall₂ (AttachesEnds.lasting font table) _) fun anchors => ?_
  refine (Yields.write _).weaken ?_
  intro sets bytes written each
  obtain ⟨paired, found⟩ := getElem?_flatten_ends (fun side glyph => table.Attaches font side glyph sets) each
  refine ⟨_, read_layout table.keys_ascending paired written, rfl, ?_⟩
  intro side glyph member
  obtain ⟨place, atPlace⟩ := Option.isSome_iff_exists.mp (List.isSome_idxOf?.mpr member)
  obtain ⟨bound, same, _⟩ := List.idxOf?_eq_some_iff.mp atPlace
  obtain ⟨anchor, atAnchor, attached⟩ := found place glyph side (List.getElem?_eq_some_iff.mpr ⟨bound, same⟩)
  refine ⟨anchor, ?_, attached⟩
  simp only [StoredCursive.anchor?, atPlace, Option.bind_eq_bind, Option.bind_some, atAnchor]

end CursiveAttachment

end Kashida
