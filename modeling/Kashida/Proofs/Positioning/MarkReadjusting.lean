import Kashida.Proofs.Positioning.MarkLayout

/-! Mark tables that differ in their adjustments only. They encode alike if the adjustments agree wherever a glyph has
an anchor, and the bytes tell the adjustments of anchors that no function computes. -/
namespace Kashida

theorem Anchor.FixedAt.unique {anchor : Anchor} (first : anchor.FixedAt p) (second : anchor.FixedAt q) : p = q := by
  obtain ⟨x, y, rfl, isX, isY⟩ := first
  obtain ⟨_, _, same, isX', isY'⟩ := second
  cases same
  obtain ⟨_, _⟩ := p
  obtain ⟨_, _⟩ := q
  rw [Point.mk.injEq]
  exact ⟨isX.symm.trans isX', isY.symm.trans isY'⟩

theorem Point.add_right_cancel {p q r : Point} (same : p + r = q + r) : p = q := by
  obtain ⟨sameX, sameY⟩ := Point.mk.inj same
  obtain ⟨_, _⟩ := p
  obtain ⟨_, _⟩ := q
  rw [Point.mk.injEq]
  exact ⟨(Int.add_left_inj _).mp sameX, (Int.add_left_inj _).mp sameY⟩

namespace AnchorSource

/-- The other source differs in nothing but its adjustments. -/
structure Readjusted (source other : AnchorSource) : Prop where
  function : other.function = source.function
  anchors : other.anchors = source.anchors

/-- The anchor of a glyph is what the function makes of its adjustment. -/
def Computes (source : AnchorSource) (glyph : String) : Prop :=
  source.anchors.lookup glyph = none ∧ source.function.isSome = true

namespace Readjusted

variable {source other : AnchorSource}

theorem anchor_eq (readjusted : source.Readjusted other) (same : other.adjustment glyph = source.adjustment glyph) :
    other.anchor font category glyph = source.anchor font category glyph := by
  unfold AnchorSource.anchor
  rw [readjusted.function, readjusted.anchors]
  unfold adjustment at same
  rw [same]

/-- An anchor that is not computed tells what its adjustment was. -/
theorem adjustment_eq {anchor : Anchor} (readjusted : source.Readjusted other) (plain : ¬source.Computes glyph)
    (gives : source.Gives font category glyph before anchor after)
    (givesToo : other.Gives font category glyph start anchor stop) :
    other.adjustment glyph = source.adjustment glyph := by
  cases gives with
  | computed absent computes => exact absurd ⟨absent, by rw [computes]; rfl⟩ plain
  | explicit present fixed =>
    rw [← readjusted.anchors] at present
    cases givesToo with
    | explicit presentToo fixedToo =>
      cases present.symm.trans presentToo
      exact Point.add_right_cancel (fixedToo.unique fixed)
    | computed absent => cases present.symm.trans absent
    | bare absent => cases present.symm.trans absent
  | bare absent unknown fixed =>
    rw [← readjusted.anchors] at absent
    rw [← readjusted.function] at unknown
    cases givesToo with
    | explicit present => cases absent.symm.trans present
    | computed _ computes => cases unknown.symm.trans computes
    | bare _ _ fixedToo => exact fixedToo.unique fixed

end Readjusted

end AnchorSource

/-- A mark attaches to a base, and each of them has its anchor. -/
inductive MarkSide where
  | base
  | mark

namespace MarkClass

def side (category : MarkClass) : MarkSide → AnchorSource
  | .base => category.base
  | .mark => category.mark

/-- The other class differs in nothing but its adjustments. -/
structure Readjusted (category other : MarkClass) : Prop where
  marks : other.marks = category.marks
  sides : ∀ side, (category.side side).Readjusted (other.side side)

namespace Readjusted

theorem refl (category : MarkClass) : category.Readjusted category := ⟨rfl, fun _ => ⟨rfl, rfl⟩⟩

theorem merge (readjusted : Readjusted category other) (parameters : MarkClassParameters) :
    category.Readjusted (other.merge parameters) := by
  constructor
  · exact readjusted.marks
  rintro (_ | _)
  · exact ⟨(readjusted.sides .base).function, (readjusted.sides .base).anchors⟩
  · exact ⟨(readjusted.sides .mark).function, (readjusted.sides .mark).anchors⟩

theorem mergeAll (readjusted : Readjusted category other) (changes : List MarkClassParameters) :
    category.Readjusted (changes.foldl MarkClass.merge other) := by
  induction changes generalizing other with
  | nil => exact readjusted
  | cons change changes ih => exact ih (readjusted.merge change)

theorem join (first : Readjusted category one) (second : Readjusted category other) : one.Readjusted other :=
  ⟨second.marks.trans first.marks.symm, fun side =>
    ⟨(second.sides side).function.trans (first.sides side).function.symm,
      (second.sides side).anchors.trans (first.sides side).anchors.symm⟩⟩

end Readjusted

end MarkClass

namespace MarkAttachment

/-- What one side of a class adds to the anchor of a glyph. -/
def adjustment (table : MarkAttachment) (name : String) (side : MarkSide) (glyph : String) : Point :=
  (table.classes[name]?.map fun category => (category.side side).adjustment glyph).getD .zero

/-- A side of a class computes the anchor of a glyph from its adjustment. -/
def Computes (table : MarkAttachment) (name : String) (side : MarkSide) (glyph : String) : Prop :=
  ∃ category, table.classes[name]? = some category ∧ (category.side side).Computes glyph

/-- A side of a class gives a glyph one of the anchors of the table. -/
inductive Anchors (font : Font) (table : MarkAttachment) : String → MarkSide → String → Prop
  | base {base : GlyphId} {name glyph : String} (member : base ∈ table.bases) (listed : name ∈ table.classes)
      (named : font.glyphName base = .ok glyph) : Anchors font table name .base glyph
  | mark {mark : GlyphId} {owner : Owner} {glyph : String} (owned : table.marks[mark]? = some owner)
      (named : font.glyphName mark = .ok glyph) : Anchors font table owner.name .mark glyph

def Owner.readjusted (step : String → MarkClass → MarkClass) (owner : Owner) : Owner :=
  { owner with category := step owner.name owner.category }

/-- The other table differs in nothing but the adjustments of its classes. -/
structure Readjusted (step : String → MarkClass → MarkClass) (table other : MarkAttachment) : Prop where
  bases : other.bases = table.bases
  classes : ∀ name : String, other.classes[name]? = table.classes[name]?.map (step name)
  kept : ∀ (name : String) (category : MarkClass), table.classes[name]? = some category →
    category.Readjusted (step name category)

theorem class_of_owner {table : MarkAttachment} {owner : Owner} (listed : owner ∈ table.owners) :
    table.classes[owner.name]? = some owner.category := by
  rw [← Std.TreeMap.mem_toList_iff_getElem?_eq_some, ← owners_classes]
  exact List.mem_map_of_mem listed

theorem class_of_mark {table : MarkAttachment} {mark : GlyphId} {owner : Owner}
    (owned : table.marks[mark]? = some owner) : table.classes[owner.name]? = some owner.category := by
  rw [getElem?_marks] at owned
  exact class_of_owner (List.mem_reverse.mp (List.mem_of_find?_eq_some owned))

open VariationM

/-- The bytes of a table tell its anchors. -/
theorem read_encode {font : Font} {table : MarkAttachment} {before after : DeltaSets} {bytes : List UInt8}
    (run : (table.encode font).run before = (.ok bytes, after)) :
    ∃ stored rows middle, StoredMarks.read (.ofBytes bytes) = .ok stored ∧
      stored.bases.table.map (List.map (Option.map Located.table)) = rows.map (List.map some) ∧
      Threaded (GivesRow font table.classes.toList) before table.bases.toList rows middle ∧
      (table.markAnchors font).run middle = (.ok (stored.marks.table.map (Prod.map id Located.table)), after) := by
  obtain ⟨anchors, middle, basesRun, rest⟩ := run_bind_eq_ok_iff.mp run
  obtain ⟨records, _, marksRun, last⟩ := run_bind_eq_ok_iff.mp rest
  obtain ⟨written, rfl⟩ := run_write_eq_ok_iff.mp last
  obtain ⟨rows, rfl, givesRows⟩ := run_baseAnchors basesRun
  have even : ∀ row ∈ rows, row.length = table.classes.size := by
    intro row member
    obtain ⟨base, _, _, _, glyph, _, gives⟩ := exists_of_forall₂ givesRows.forall₂ member
    rw [← gives.forall₂.length_eq, Std.TreeMap.length_toList]
  obtain ⟨stored, isRead, _, _, _, rfl, sameBases, _, _⟩ := read_layout (marks_ascending _) table.bases.ascending
    givesRows.forall₂.length_eq.symm even written 0 []
  rw [List.append_nil] at isRead
  exact ⟨stored, rows, middle, isRead, sameBases, givesRows, marksRun⟩

theorem gives_of_record {font : Font} {mark : GlyphId} {owner : Owner} {before after : DeltaSets}
    {record : UInt16 × Anchor} (named : font.glyphName mark = .ok glyph)
    (run : (do
      let glyph ← font.glyphName mark
      return (owner.number, ← owner.category.mark.anchor font owner.name glyph) : VariationM _).run before =
        (.ok record, after)) : owner.category.mark.Gives font owner.name glyph before record.2 after := by
  obtain ⟨_, _, first, rest⟩ := run_bind_eq_ok_iff.mp run
  obtain ⟨isGlyph, rfl⟩ := run_resolve_eq_ok_iff.mp first
  cases named.symm.trans isGlyph
  obtain ⟨anchor, _, gives, last⟩ := run_bind_eq_ok_iff.mp rest
  obtain ⟨rfl, rfl⟩ := run_pure_eq_ok_iff.mp last
  exact AnchorSource.gives_of_run gives

namespace Readjusted

variable {step : String → MarkClass → MarkClass} {table other : MarkAttachment}

theorem toList_classes (readjusted : Readjusted step table other) :
    other.classes.toList = table.classes.toList.map fun entry => (entry.1, step entry.1 entry.2) := by
  have same : other.classes.Equiv (table.classes.map step) := by
    apply Std.TreeMap.Equiv.of_forall_constGet?_eq
    intro name
    rw [readjusted.classes, Std.TreeMap.getElem?_map]
  rw [same.toList_eq, Std.TreeMap.toList_map]

theorem owners_eq (readjusted : Readjusted step table other) :
    other.owners = table.owners.map (Owner.readjusted step) := by
  rw [owners, owners, readjusted.toList_classes, List.zipIdx_map, List.map_map, List.map_map]
  rfl

theorem getElem?_marks (readjusted : Readjusted step table other) (mark : GlyphId) :
    other.marks[mark]? = table.marks[mark]?.map (Owner.readjusted step) := by
  have same : ∀ owner ∈ table.owners.reverse, ((owner.readjusted step).category.marks.toList.contains mark) =
      owner.category.marks.toList.contains mark := by
    intro owner listed
    rw [Owner.readjusted, (readjusted.kept _ _ (class_of_owner (List.mem_reverse.mp listed))).marks]
  rw [MarkAttachment.getElem?_marks, MarkAttachment.getElem?_marks, readjusted.owners_eq, ← List.map_reverse,
    List.find?_map, Function.comp_def, ← List.head?_filter, ← List.head?_filter, List.filter_congr same]

theorem toList_marks (readjusted : Readjusted step table other) :
    other.marks.toList = table.marks.toList.map fun entry => (entry.1, entry.2.readjusted step) := by
  have same : other.marks.Equiv (table.marks.map fun _ owner => owner.readjusted step) := by
    apply Std.TreeMap.Equiv.of_forall_constGet?_eq
    intro mark
    rw [readjusted.getElem?_marks, Std.TreeMap.getElem?_map]
  rw [same.toList_eq, Std.TreeMap.toList_map]

theorem size_classes (readjusted : Readjusted step table other) : other.classes.size = table.classes.size := by
  rw [← Std.TreeMap.length_toList, readjusted.toList_classes, List.length_map, Std.TreeMap.length_toList]

theorem keys_marks (readjusted : Readjusted step table other) : other.marks.keys = table.marks.keys := by
  rw [← Std.TreeMap.map_fst_toList_eq_keys, readjusted.toList_marks, List.map_map, ← Std.TreeMap.map_fst_toList_eq_keys]
  rfl

theorem adjustment_eq_iff (readjusted : Readjusted step table other) (found : table.classes[name]? = some category)
    (side : MarkSide) (glyph : String) : other.adjustment name side glyph = table.adjustment name side glyph ↔
      ((step name category).side side).adjustment glyph = (category.side side).adjustment glyph := by
  rw [adjustment, adjustment, readjusted.classes, found]
  rfl

theorem baseAnchors_eq (readjusted : Readjusted step table other)
    (same : ∀ name side glyph, table.Anchors font name side glyph →
      other.adjustment name side glyph = table.adjustment name side glyph) :
    other.baseAnchors font = table.baseAnchors font := by
  rw [MarkAttachment.baseAnchors, MarkAttachment.baseAnchors, readjusted.bases]
  congr 1
  apply mapM_congr
  intro base member
  cases named : font.glyphName base with
  | error error => rfl
  | ok glyph =>
    rw [resolved_bind, resolved_bind, readjusted.toList_classes, List.mapM_map]
    apply mapM_congr
    intro entry listed
    have found := Std.TreeMap.mem_toList_iff_getElem?_eq_some.mp listed
    have anchored : table.Anchors font entry.1 .base glyph :=
      .base member (Std.TreeMap.mem_iff_isSome_getElem?.mpr (by rw [found]; rfl)) named
    exact ((readjusted.kept _ _ found).sides .base).anchor_eq
      ((readjusted.adjustment_eq_iff found .base glyph).mp (same _ _ _ anchored))

theorem markAnchors_eq (readjusted : Readjusted step table other)
    (same : ∀ name side glyph, table.Anchors font name side glyph →
      other.adjustment name side glyph = table.adjustment name side glyph) :
    other.markAnchors font = table.markAnchors font := by
  rw [MarkAttachment.markAnchors, MarkAttachment.markAnchors, readjusted.toList_marks, List.mapM_map]
  apply mapM_congr
  rintro ⟨mark, owner⟩ listed
  have owned := Std.TreeMap.mem_toList_iff_getElem?_eq_some.mp listed
  have found := class_of_mark owned
  show (liftM (font.glyphName mark) >>= _ : VariationM _) = liftM (font.glyphName mark) >>= _
  cases named : font.glyphName mark with
  | error error => rfl
  | ok glyph =>
    have sameAnchor : (step owner.name owner.category).mark.anchor font owner.name glyph =
        owner.category.mark.anchor font owner.name glyph :=
      ((readjusted.kept _ _ found).sides .mark).anchor_eq
        ((readjusted.adjustment_eq_iff found .mark glyph).mp (same _ _ _ (.mark owned named)))
    exact congrArg (fun anchor => anchor >>= fun anchor => pure (owner.number, anchor)) sameAnchor

/-- Adjustments that agree wherever the table has an anchor are as good as the same. -/
theorem encode_eq (readjusted : Readjusted step table other)
    (same : ∀ name side glyph, table.Anchors font name side glyph →
      other.adjustment name side glyph = table.adjustment name side glyph) : other.encode font = table.encode font := by
  rw [MarkAttachment.encode, MarkAttachment.encode, readjusted.baseAnchors_eq same, readjusted.markAnchors_eq same,
    readjusted.size_classes, readjusted.keys_marks, readjusted.bases]

/-- Tables with the same bytes have the same adjustments where these become anchors as they are. -/
theorem adjustment_eq (readjusted : Readjusted step table other) (anchored : table.Anchors font name side glyph)
    (plain : ¬table.Computes name side glyph) (run : (table.encode font).run before = (.ok bytes, after))
    (runToo : (other.encode font).run start = (.ok bytes, stop)) :
    other.adjustment name side glyph = table.adjustment name side glyph := by
  -- The runs start from other delta sets, but what they write is read back from the same bytes.
  obtain ⟨stored, rows, middle, isRead, isRows, givesRows, marksRun⟩ := read_encode run
  obtain ⟨_, rowsToo, _, isReadToo, isRowsToo, givesRowsToo, marksRunToo⟩ := read_encode runToo
  cases isRead.symm.trans isReadToo
  have sameRows : rowsToo = rows := by
    have injective : (List.map (some : Anchor → Option Anchor)).Injective :=
      List.map_injective_iff.mpr fun _ _ => Option.some.inj
    apply List.map_injective_iff.mpr injective
    exact isRowsToo.symm.trans isRows
  subst sameRows
  cases anchored with
  | base member listed named =>
    rw [readjusted.bases, readjusted.toList_classes] at givesRowsToo
    obtain ⟨row, ⟨_, _, _, isGlyph, anchors⟩, ⟨_, _, _, isGlyphToo, anchorsToo⟩⟩ :=
      exists_common givesRows.forall₂ givesRowsToo.forall₂ member
    cases named.symm.trans isGlyph
    cases named.symm.trans isGlyphToo
    obtain ⟨category, found⟩ := Option.isSome_iff_exists.mp (Std.TreeMap.mem_iff_isSome_getElem?.mp listed)
    obtain ⟨anchor, ⟨_, _, gives⟩, ⟨_, _, givesToo⟩⟩ := exists_common anchors.forall₂
      (List.forall₂_map_left_iff.mp anchorsToo.forall₂) (Std.TreeMap.mem_toList_iff_getElem?_eq_some.mpr found)
    apply (readjusted.adjustment_eq_iff found .base _).mpr
    exact ((readjusted.kept _ _ found).sides .base).adjustment_eq (fun computes => plain ⟨_, found, computes⟩) gives
      givesToo
  | mark owned named =>
    have found := class_of_mark owned
    have records := run_mapM marksRun
    have recordsToo := run_mapM marksRunToo
    rw [readjusted.toList_marks] at recordsToo
    obtain ⟨_, ⟨_, _, record⟩, ⟨_, _, recordToo⟩⟩ := exists_common records.forall₂
      (List.forall₂_map_left_iff.mp recordsToo.forall₂) (Std.TreeMap.mem_toList_iff_getElem?_eq_some.mpr owned)
    apply (readjusted.adjustment_eq_iff found .mark _).mpr
    exact ((readjusted.kept _ _ found).sides .mark).adjustment_eq (fun computes => plain ⟨_, found, computes⟩)
      (gives_of_record named record) (gives_of_record named recordToo)

end Readjusted

end MarkAttachment

end Kashida
