import Kashida.Proofs.Positioning.Restoring

/-! Blocks that are refused. A block with an unknown name is refused when that name is reached, and what stands before
it has been taken over by then. -/
namespace Kashida

namespace ByName

/-- The part of a block before its first unknown name. -/
structure Cut (font : Font) (block before : ByName α) (name : String) : Prop where
  whole : ∃ value after, block = before ++ (name, value) :: after
  known : ∀ entry ∈ before, ∃ glyph, font.glyphs.id? entry.1 = some glyph
  unknown : font.glyphs.id? name = none

theorem Cut.cons {font : Font} {block before : ByName α} (cut : block.Cut font before name)
    (found : font.glyphs.id? other = some glyph) (value : α) :
    Cut font ((other, value) :: block) ((other, value) :: before) name := by
  obtain ⟨refused, after, rfl⟩ := cut.whole
  exact ⟨⟨refused, after, rfl⟩, List.forall_mem_cons.mpr ⟨⟨glyph, found⟩, cut.known⟩, cut.unknown⟩

/-- A block is refused at its first unknown name, and the part before that name is not. -/
theorem cut_of_outcome {font : Font} {block : ByName α} (refused : block.outcome font = .error error) :
    ∃ before name, block.Cut font before name ∧ error = .unknownGlyph name ∧ before.outcome font = .ok () ∧
      before.known font = block.known font := by
  induction block with
  | nil => cases refused
  | cons entry block ih =>
    obtain ⟨name, value⟩ := entry
    cases found : font.glyphId name with
    | error first =>
      rw [outcome_cons_of_error found] at refused
      cases refused
      obtain ⟨unknown, isError⟩ := Font.glyphId_eq_error_iff.mp found
      refine ⟨[], name, ⟨⟨value, block, rfl⟩, ?_, unknown⟩, isError, rfl, ?_⟩
      · intro entry member
        cases member
      · rw [known_cons_of_error found]
        rfl
    | ok glyph =>
      rw [outcome_cons_of_ok found] at refused
      obtain ⟨before, unknown, cut, isError, succeeds, same⟩ := ih refused
      refine ⟨(name, value) :: before, unknown, cut.cons (Font.glyphId_eq_ok_iff.mp found) value, isError, ?_, ?_⟩
      · rw [outcome_cons_of_ok found]
        exact succeeds
      · rw [known_cons_of_ok found, known_cons_of_ok found, same]

theorem known_of_outcome {font : Font} {block : ByName α} (succeeds : block.outcome font = .ok ()) :
    ∀ entry ∈ block, ∃ glyph, font.glyphs.id? entry.1 = some glyph := by
  induction block with
  | nil =>
    intro entry member
    cases member
  | cons entry block ih =>
    simp only [outcome, bind_eq_ok_iff] at succeeds
    obtain ⟨glyph, found, rest⟩ := succeeds
    exact List.forall_mem_cons.mpr ⟨⟨glyph, Font.glyphId_eq_ok_iff.mp found⟩, ih rest⟩

end ByName

/-- The part of a block of entries and exits before its first unknown name. -/
inductive CursiveParameters.Cut (font : Font) (parameters before : CursiveParameters) (name : String) : Prop
  | entry (cut : parameters.entry.Cut font before.entry name) (noExit : before.exit = [])
  | exit (same : before.entry = parameters.entry)
      (known : ∀ entry ∈ parameters.entry, ∃ glyph, font.glyphs.id? entry.1 = some glyph)
      (cut : parameters.exit.Cut font before.exit name)

theorem CursiveParameters.cut_of_outcome {font : Font} {parameters : CursiveParameters}
    (refused : parameters.outcome font = .error error) :
    ∃ before name, parameters.Cut font before name ∧ error = .unknownGlyph name ∧ before.outcome font = .ok () ∧
      before.known font = parameters.known font := by
  rcases bind_eq_error_iff.mp refused with entryRefused | ⟨_, entrySucceeds, exitRefused⟩
  · obtain ⟨before, name, cut, isError, succeeds, same⟩ := ByName.cut_of_outcome entryRefused
    refine ⟨⟨before, []⟩, name, .entry cut rfl, isError, ?_, ?_⟩
    · rw [outcome, succeeds]
      rfl
    · funext side
      cases side with
      | entry => exact same
      | exit =>
        rw [known, known, entryRefused, if_pos (by rw [succeeds]; rfl)]
        rfl
  · obtain ⟨before, name, cut, isError, succeeds, same⟩ := ByName.cut_of_outcome exitRefused
    refine ⟨⟨parameters.entry, before⟩, name, .exit rfl (ByName.known_of_outcome entrySucceeds) cut, isError, ?_, ?_⟩
    · rw [outcome, entrySucceeds]
      exact succeeds
    · funext side
      cases side with
      | entry => rfl
      | exit => rw [known, known, entrySucceeds, same]

/-- A table that refuses a block is left as by the part before the unknown name, which it takes over. -/
theorem SingleAdjustment.merge_cut {font : Font} {table next : SingleAdjustment} {block : ByName ValueRecord}
    (refused : table.merge font block = (.error error, next)) : ∃ before name, block.Cut font before name ∧
      error = .unknownGlyph name ∧ table.merge font before = (.ok (), next) := by
  rw [merge_eq, Prod.mk.injEq] at refused
  obtain ⟨outcome, isNext⟩ := refused
  obtain ⟨before, name, cut, isError, succeeds, same⟩ := ByName.cut_of_outcome outcome
  refine ⟨before, name, cut, isError, ?_⟩
  rw [merge_eq, succeeds, same, isNext]

theorem CursiveAttachment.merge_cut {font : Font} {table next : CursiveAttachment} {parameters : CursiveParameters}
    (refused : table.merge font parameters = (.error error, next)) : ∃ before name, parameters.Cut font before name ∧
      error = .unknownGlyph name ∧ table.merge font before = (.ok (), next) := by
  rw [merge_eq, Prod.mk.injEq] at refused
  obtain ⟨outcome, isNext⟩ := refused
  obtain ⟨before, name, cut, isError, succeeds, same⟩ := CursiveParameters.cut_of_outcome outcome
  refine ⟨before, name, cut, isError, ?_⟩
  rw [merge_eq, succeeds, same, isNext]

/-- A value that is there already is not changed by putting it there. -/
theorem or_eq_right {first second : Option α} (there : ∀ value, first = some value → second = some value) :
    first.or second = second := by
  cases first with
  | none => rfl
  | some value => exact (there value rfl).symm

theorem SingleAdjustment.save_congr {one other : SingleAdjustment}
    (alike : ∀ glyph : GlyphId, one.adjustments[glyph]? = other.adjustments[glyph]?) (font : Font) :
    one.save font = other.save font := by
  have same : one.adjustments.toList = other.adjustments.toList :=
    (Std.TreeMap.Equiv.of_forall_constGet?_eq alike).toList_eq
  rw [save, save, same]

theorem CursiveAttachment.save_congr {one other : CursiveAttachment}
    (alike : ∀ (side : CursiveSide) (glyph : GlyphId),
      (one.adjustments side)[glyph]? = (other.adjustments side)[glyph]?) (font : Font) :
    one.save font = other.save font := by
  have same : ∀ side, (one.adjustments side).toList = (other.adjustments side).toList := fun side =>
    (Std.TreeMap.Equiv.of_forall_constGet?_eq (alike side)).toList_eq
  rw [save, save, saveSide, saveSide, saveSide, saveSide, same, same]

/-- A block that is refused has an unknown name, and leaves the table as if it had ended before the first of these: what
stands there is in place, entries before exits, and all else is as before. If that only repeats adjustments which were
there, the table encodes and saves as before. -/
theorem refused_blocks_take_over_known_part (font : Font) :
    (∀ (table next : SingleAdjustment) (block : ByName ValueRecord) (error : ResolveError),
      table.merge font block = (.error error, next) → ∃ before name, block.Cut font before name ∧
        error = .unknownGlyph name ∧ table.merge font before = (.ok (), next) ∧ next.records = table.records ∧
        (∀ glyph : GlyphId, next.adjustments[glyph]? = (before.latest? font glyph).or table.adjustments[glyph]?) ∧
        ((∀ (glyph : GlyphId) (record : ValueRecord), before.latest? font glyph = some record →
            table.adjustments[glyph]? = some record) →
          next.encode = table.encode ∧ next.save font = table.save font)) ∧
    ∀ (table next : CursiveAttachment) (parameters : CursiveParameters) (error : ResolveError),
      table.merge font parameters = (.error error, next) → ∃ before name, parameters.Cut font before name ∧
        error = .unknownGlyph name ∧ table.merge font before = (.ok (), next) ∧ next.name = table.name ∧
        next.anchors = table.anchors ∧
        (∀ (side : CursiveSide) (glyph : GlyphId), (next.adjustments side)[glyph]? =
          (before.latest? font side glyph).or (table.adjustments side)[glyph]?) ∧
        ((∀ (side : CursiveSide) (glyph : GlyphId) (point : Point), before.latest? font side glyph = some point →
            (table.adjustments side)[glyph]? = some point) →
          next.encode font = table.encode font ∧ next.save font = table.save font) := by
  constructor
  · intro table next block error refused
    obtain ⟨before, name, cut, isError, merged⟩ := SingleAdjustment.merge_cut refused
    obtain ⟨records, adjustments⟩ := SingleAdjustment.merge_takes font table before
    rw [merged] at records adjustments
    refine ⟨before, name, cut, isError, merged, records, adjustments, fun repeats => ?_⟩
    have unchanged : ∀ glyph : GlyphId, next.adjustments[glyph]? = table.adjustments[glyph]? := by
      intro glyph
      rw [adjustments]
      exact or_eq_right (repeats glyph)
    constructor
    · apply SingleAdjustment.encode_congr records
      intro glyph _
      rw [unchanged]
    · exact SingleAdjustment.save_congr unchanged font
  · intro table next parameters error refused
    obtain ⟨before, name, cut, isError, merged⟩ := CursiveAttachment.merge_cut refused
    obtain ⟨sameName, anchors, adjustments⟩ := CursiveAttachment.merge_takes font table before
    rw [merged] at sameName anchors adjustments
    refine ⟨before, name, cut, isError, merged, sameName, anchors, adjustments, fun repeats => ?_⟩
    have unchanged : ∀ (side : CursiveSide) (glyph : GlyphId),
        (next.adjustments side)[glyph]? = (table.adjustments side)[glyph]? := by
      intro side glyph
      rw [adjustments]
      exact or_eq_right (repeats side glyph)
    constructor
    · apply CursiveAttachment.encode_congr sameName anchors
      intro side glyph
      rw [unchanged]
    · exact CursiveAttachment.save_congr unchanged font

/-- A table of one glyph that is adjusted already. -/
def adjustedTable : SingleAdjustment where
  records := (∅ : Std.TreeMap GlyphId ValueRecord).insert 3 ⟨5, 6, 7, 8⟩
  adjustments := (∅ : Std.TreeMap GlyphId ValueRecord).insert 3 ⟨1, 1, 1, 1⟩

def adjustedAttachment : CursiveAttachment where
  name := "join"
  anchors := (∅ : Std.TreeMap GlyphId CursiveEnds).insert 3 ⟨some (.point ⟨10, 20⟩), some (.point ⟨30, 40⟩)⟩
  exitAdjustments := (∅ : Std.TreeMap GlyphId Point).insert 3 ⟨7, 8⟩

/-- A block that repeats an adjustment before an unknown name, and one whose first exit is unknown. -/
theorem refused_blocks_take_over_known_part_of_repeated :
    (∃ next, adjustedTable.merge restoringFont [("beh", ⟨1, 1, 1, 1⟩), ("lam", ⟨9, 9, 9, 9⟩)] =
        (.error (.unknownGlyph "lam"), next) ∧ next.encode = adjustedTable.encode ∧
      next.save restoringFont = adjustedTable.save restoringFont) ∧
    ∃ next before, adjustedAttachment.merge restoringFont ⟨[("beh", ⟨1, 2⟩)], [("lam", ⟨9, 9⟩), ("beh", ⟨9, 9⟩)]⟩ =
        (.error (.unknownGlyph "lam"), next) ∧
      CursiveParameters.Cut restoringFont ⟨[("beh", ⟨1, 2⟩)], [("lam", ⟨9, 9⟩), ("beh", ⟨9, 9⟩)]⟩ before "lam" ∧
      adjustedAttachment.merge restoringFont before = (.ok (), next) := by
  obtain ⟨single, cursive⟩ := refused_blocks_take_over_known_part restoringFont
  constructor
  · have refused : (adjustedTable.merge restoringFont [("beh", ⟨1, 1, 1, 1⟩), ("lam", ⟨9, 9, 9, 9⟩)]).1 =
        .error (.unknownGlyph "lam") := by decide +kernel
    obtain ⟨before, name, cut, isError, _, _, _, unchanged⟩ := single adjustedTable _ _ _ (Prod.ext refused rfl)
    refine ⟨_, Prod.ext refused rfl, unchanged fun glyph record latest => ?_⟩
    cases isError
    obtain ⟨value, after, whole⟩ := cut.whole
    -- The unknown name is the second.
    match before with
    | [] =>
      have same : "beh" = "lam" := congrArg Prod.fst (List.cons.inj whole).1
      exact absurd same (by decide)
    | [entry] =>
      cases whole
      have isKnown : ByName.known restoringFont [("beh", (⟨1, 1, 1, 1⟩ : ValueRecord))] = [(3, ⟨1, 1, 1, 1⟩)] := by
        decide +kernel
      rw [ByName.latest?, isKnown] at latest
      simp only [List.reverse_singleton, List.lookup_cons, List.lookup_nil] at latest
      split at latest
      · rename_i same
        cases latest
        rw [eq_of_beq same]
        decide +kernel
      · cases latest
    | _ :: _ :: rest => cases (List.append_eq_nil_iff.mp (List.cons.inj (List.cons.inj whole).2).2.symm).2
  · have refused : (adjustedAttachment.merge restoringFont
        ⟨[("beh", ⟨1, 2⟩)], [("lam", ⟨9, 9⟩), ("beh", ⟨9, 9⟩)]⟩).1 = .error (.unknownGlyph "lam") := by decide +kernel
    obtain ⟨before, name, cut, isError, merged, _⟩ := cursive adjustedAttachment _ _ _ (Prod.ext refused rfl)
    cases isError
    exact ⟨_, before, Prod.ext refused rfl, cut, merged⟩

/-- What stands before an unknown name shows in the bytes and in what is saved. -/
theorem refused_blocks_change_encodings :
    (∃ next, adjustedTable.merge restoringFont [("beh", ⟨2, 2, 2, 2⟩), ("lam", ⟨9, 9, 9, 9⟩)] =
        (.error (.unknownGlyph "lam"), next) ∧ next.encode ≠ adjustedTable.encode ∧
      next.save restoringFont ≠ adjustedTable.save restoringFont) ∧
    ∃ next, adjustedAttachment.merge restoringFont ⟨[("beh", ⟨1, 2⟩)], [("lam", ⟨9, 9⟩)]⟩ =
        (.error (.unknownGlyph "lam"), next) ∧
      ((next.encode restoringFont).run restoringFont.deltaSets).1 ≠
        ((adjustedAttachment.encode restoringFont).run restoringFont.deltaSets).1 ∧
      next.save restoringFont ≠ adjustedAttachment.save restoringFont := by
  constructor
  · have refused : (adjustedTable.merge restoringFont [("beh", ⟨2, 2, 2, 2⟩), ("lam", ⟨9, 9, 9, 9⟩)]).1 =
        .error (.unknownGlyph "lam") := by decide +kernel
    exact ⟨_, Prod.ext refused rfl, by decide +kernel, by decide +kernel⟩
  · have refused : (adjustedAttachment.merge restoringFont ⟨[("beh", ⟨1, 2⟩)], [("lam", ⟨9, 9⟩)]⟩).1 =
        .error (.unknownGlyph "lam") := by decide +kernel
    exact ⟨_, Prod.ext refused rfl, by decide +kernel, by decide +kernel⟩

end Kashida
