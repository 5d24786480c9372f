import Kashida.Proofs.Positioning.NamedBlocks

/-! What saved adjustments are worth to a table that is populated again. Tables of single adjustments and of cursive
attachments start without adjustments, so that those which change something are all there is to save. -/
namespace Kashida

/-- What a map saves under names is taken over again for its glyphs, and nothing else is. -/
theorem ByName.latest?_of_saved {font : Font} (oneToOne : font.glyphs.OneToOne) {map : Std.TreeMap GlyphId α}
    (keep : α → Bool) {block : ByName α}
    (saved : (map.toList.filter fun entry => keep entry.2).mapM
      (fun entry => do return (← font.glyphName entry.1, entry.2)) = .ok block) :
    block.outcome font = .ok () ∧
      ∀ glyph : GlyphId, block.latest? font glyph = map[glyph]?.filter keep := by
  obtain ⟨same, succeeds⟩ := known_of_named oneToOne saved
  refine ⟨succeeds, fun glyph => ?_⟩
  rw [latest?, same]
  exact lookup_filter_toList map keep glyph

theorem getD_filter {keep : α → Bool} {zero : α} (drops : ∀ value, keep value = false → value = zero)
    (value : Option α) : (value.filter keep).getD zero = value.getD zero := by
  cases value with
  | none => rfl
  | some value =>
    rw [Option.filter_some]
    cases kept : keep value with
    | true => rfl
    | false => exact (drops value kept).symm

theorem filter_or_self (keep : α → Bool) (value : Option α) : (value.filter keep).or value = value := by
  cases value with
  | none => rfl
  | some value =>
    rw [Option.filter_some]
    cases keep value <;> rfl

namespace SingleAdjustment

/-- A block that one table saved, taken over by another. -/
theorem merge_saved {font : Font} (oneToOne : font.glyphs.OneToOne) {changed : SingleAdjustment}
    (saved : changed.save font = .ok block) (table : SingleAdjustment) :
    (table.merge font block.records).1 = .ok () ∧ ∀ glyph : GlyphId,
      (table.merge font block.records).2.adjustments[glyph]? =
        (changed.adjustments[glyph]?.filter fun record => !record.isZero).or table.adjustments[glyph]? := by
  simp only [save, bind_eq_ok_iff, pure_eq_ok_iff] at saved
  obtain ⟨records, named, rfl⟩ := saved
  obtain ⟨succeeds, found⟩ := ByName.latest?_of_saved oneToOne (fun record : ValueRecord => !record.isZero) named
  constructor
  · rw [merge_eq]
    exact succeeds
  · intro glyph
    rw [(merge_takes font table records).2, found]

/-- A table without adjustments that takes over what another with its records saved encodes like that one. -/
theorem encode_merge_saved {font : Font} (oneToOne : font.glyphs.OneToOne) {table changed : SingleAdjustment}
    (sameRecords : changed.records = table.records) (fresh : table.adjustments = ∅)
    (saved : changed.save font = .ok block) : (table.merge font block.records).2.encode = changed.encode := by
  apply encode_congr
  · exact (merge_takes font table block.records).1.trans sameRecords.symm
  · intro glyph _
    rw [(merge_saved oneToOne saved table).2, fresh, Std.TreeMap.getElem?_emptyc, Option.or_none]
    apply getD_filter
    intro record dropped
    rw [Bool.not_eq_false'] at dropped
    exact eq_of_beq dropped

/-- A table that takes over what it saved itself encodes as before. -/
theorem encode_merge_own {font : Font} (oneToOne : font.glyphs.OneToOne) {changed : SingleAdjustment}
    (saved : changed.save font = .ok block) : (changed.merge font block.records).2.encode = changed.encode := by
  apply encode_congr
  · exact (merge_takes font changed block.records).1
  · intro glyph _
    rw [(merge_saved oneToOne saved changed).2, filter_or_self]

end SingleAdjustment

namespace CursiveAttachment

/-- Takes over one block after the other, each of them up to its first unknown name. -/
def mergeAll (font : Font) (table : CursiveAttachment) (blocks : List CursiveParameters) : CursiveAttachment :=
  blocks.foldl (fun table block => (table.merge font block).2) table

theorem mergeAll_anchors (font : Font) (table : CursiveAttachment) (blocks : List CursiveParameters) :
    (table.mergeAll font blocks).name = table.name ∧ (table.mergeAll font blocks).anchors = table.anchors := by
  induction blocks generalizing table with
  | nil => exact ⟨rfl, rfl⟩
  | cons block blocks ih =>
    obtain ⟨sameName, sameAnchors, _⟩ := merge_takes font table block
    obtain ⟨restName, restAnchors⟩ := ih (table.merge font block).2
    exact ⟨restName.trans sameName, restAnchors.trans sameAnchors⟩

section

variable {one other : CursiveAttachment} (sameName : one.name = other.name) (sameAnchors : one.anchors = other.anchors)
  (alike : ∀ (side : CursiveSide) (glyph : GlyphId),
    (one.adjustments side)[glyph]?.getD .zero = (other.adjustments side)[glyph]?.getD .zero)
include sameName sameAnchors alike

theorem position_congr (font : Font) (side : CursiveSide) (glyph : GlyphId) (base : Point) (left right : Binary64) :
    one.position font side glyph base left right = other.position font side glyph base left right := by
  have sameSpec : one.anchorSpec? side glyph = other.anchorSpec? side glyph := by
    rw [anchorSpec?, anchorSpec?, sameAnchors]
  have sameCarried : one.carried? side glyph = other.carried? side glyph := by
    funext shape
    rw [carried?, carried?, sameSpec, sameName]
  unfold position
  rw [Std.TreeMap.getD_eq_getD_getElem?, Std.TreeMap.getD_eq_getD_getElem?, alike, sameCarried]

theorem anchor_congr (font : Font) (side : CursiveSide) (glyph : GlyphId) :
    one.anchor font side glyph = other.anchor font side glyph := by
  have sameBase : one.base font side glyph = other.base font side glyph := by
    rw [base, base, anchorSpec?, anchorSpec?, sameAnchors]
  have samePosition : one.position font side glyph = other.position font side glyph := by
    funext base left right
    exact position_congr sameName sameAnchors alike font side glyph base left right
  rw [anchor, anchor, sameBase, samePosition]

/-- An adjustment by nothing is as good as none. -/
theorem encode_congr (font : Font) : one.encode font = other.encode font := by
  have sameAnchor : one.anchor font = other.anchor font := by
    funext side glyph
    exact anchor_congr sameName sameAnchors alike font side glyph
  rw [encode, encode, sameAnchors, sameAnchor]

end

/-- A block that one table saved, taken over by another. -/
theorem merge_saved {font : Font} (oneToOne : font.glyphs.OneToOne) {changed : CursiveAttachment}
    (saved : changed.save font = .ok block) (table : CursiveAttachment) :
    (table.merge font block).1 = .ok () ∧ ∀ (side : CursiveSide) (glyph : GlyphId),
      ((table.merge font block).2.adjustments side)[glyph]? =
        ((changed.adjustments side)[glyph]?.filter fun point => !point.isZero).or (table.adjustments side)[glyph]? := by
  simp only [save, bind_eq_ok_iff, pure_eq_ok_iff] at saved
  obtain ⟨entries, namedEntries, exits, namedExits, rfl⟩ := saved
  obtain ⟨entriesSucceed, foundEntries⟩ :=
    ByName.latest?_of_saved oneToOne (fun point : Point => !point.isZero) namedEntries
  obtain ⟨exitsSucceed, foundExits⟩ :=
    ByName.latest?_of_saved oneToOne (fun point : Point => !point.isZero) namedExits
  constructor
  · rw [merge_eq, CursiveParameters.outcome, entriesSucceed]
    exact exitsSucceed
  · intro side glyph
    rw [(merge_takes font table _).2.2]
    cases side with
    | entry => rw [← foundEntries]; rfl
    | exit =>
      rw [CursiveParameters.latest?, CursiveParameters.known, if_pos (by rw [entriesSucceed]; rfl), ← foundExits]
      rfl

/-- A table without adjustments that takes over what another with its anchors saved encodes like that one. -/
theorem encode_merge_saved {font : Font} (oneToOne : font.glyphs.OneToOne) {table changed : CursiveAttachment}
    (sameName : changed.name = table.name) (sameAnchors : changed.anchors = table.anchors)
    (fresh : ∀ side, table.adjustments side = ∅) (saved : changed.save font = .ok block) :
    (table.merge font block).2.encode font = changed.encode font := by
  obtain ⟨keptName, keptAnchors, _⟩ := merge_takes font table block
  apply encode_congr (keptName.trans sameName.symm) (keptAnchors.trans sameAnchors.symm)
  intro side glyph
  rw [(merge_saved oneToOne saved table).2, fresh, Std.TreeMap.getElem?_emptyc, Option.or_none]
  apply getD_filter
  intro point dropped
  rw [Bool.not_eq_false'] at dropped
  exact eq_of_beq dropped

/-- A table that takes over what it saved itself encodes as before. -/
theorem encode_merge_own {font : Font} (oneToOne : font.glyphs.OneToOne) {changed : CursiveAttachment}
    (saved : changed.save font = .ok block) : (changed.merge font block).2.encode font = changed.encode font := by
  obtain ⟨keptName, keptAnchors, _⟩ := merge_takes font changed block
  apply encode_congr keptName keptAnchors
  intro side glyph
  rw [(merge_saved oneToOne saved changed).2, filter_or_self]

theorem adjustments_of_ofRule {font : Font} (populated : ofRule font title rule = .ok table) (side : CursiveSide) :
    table.adjustments side = ∅ := by
  simp only [ofRule, bind_eq_ok_iff, pure_eq_ok_iff] at populated
  obtain ⟨anchors, _, rfl⟩ := populated
  cases side <;> rfl

end CursiveAttachment

/-- A table is populated, changed in any way and saved. Then a table that is populated anew takes over what was saved
and encodes like the first: to the same bytes or the same error, from whatever delta sets. So does the first itself, if
it takes over what it saved. -/
theorem saved_adjustments_restore_encodings (font : Font) (history : List (String × GlyphId))
    (ordered : font.glyphs = .ofList history) :
    (∀ (rule : AdjustmentRule) (table : SingleAdjustment), SingleAdjustment.ofRule font rule = .ok table →
      ∀ (steps : List AdjustmentStep) (changed : SingleAdjustment) (saved : AdjustmentParameters),
        changed = steps.foldl (SingleAdjustment.take font) table → changed.save font = .ok saved →
        ∃ reloaded again, table.merge font saved.records = (.ok (), reloaded) ∧ reloaded.encode = changed.encode ∧
          changed.merge font saved.records = (.ok (), again) ∧ again.encode = changed.encode) ∧
    ∀ (name : String) (rule : CursiveRule) (table : CursiveAttachment),
      CursiveAttachment.ofRule font name rule = .ok table →
      ∀ (blocks : List CursiveParameters) (changed : CursiveAttachment) (saved : CursiveParameters),
        changed = table.mergeAll font blocks → changed.save font = .ok saved →
        ∃ reloaded again, table.merge font saved = (.ok (), reloaded) ∧ changed.merge font saved = (.ok (), again) ∧
          ∀ sets, (reloaded.encode font).run sets = (changed.encode font).run sets ∧
            (again.encode font).run sets = (changed.encode font).run sets := by
  have oneToOne : font.glyphs.OneToOne := by
    rw [ordered]
    exact GlyphOrder.oneToOne_ofList history
  constructor
  · intro rule table populated steps changed saved isChanged success
    have sameRecords : changed.records = table.records := by
      rw [isChanged]
      exact (SingleAdjustment.run_takes font table steps).1
    have fresh := (SingleAdjustment.getElem?_ofRule populated).1
    refine ⟨_, _, Prod.ext (SingleAdjustment.merge_saved oneToOne success table).1 rfl, ?_,
      Prod.ext (SingleAdjustment.merge_saved oneToOne success changed).1 rfl, ?_⟩
    · exact SingleAdjustment.encode_merge_saved oneToOne sameRecords fresh success
    · exact SingleAdjustment.encode_merge_own oneToOne success
  · intro name rule table populated blocks changed saved isChanged success
    obtain ⟨sameName, sameAnchors⟩ := CursiveAttachment.mergeAll_anchors font table blocks
    rw [← isChanged] at sameName sameAnchors
    have fresh := CursiveAttachment.adjustments_of_ofRule populated
    refine ⟨_, _, Prod.ext (CursiveAttachment.merge_saved oneToOne success table).1 rfl,
      Prod.ext (CursiveAttachment.merge_saved oneToOne success changed).1 rfl, fun sets => ⟨?_, ?_⟩⟩
    · rw [CursiveAttachment.encode_merge_saved oneToOne sameName sameAnchors fresh success]
    · rw [CursiveAttachment.encode_merge_own oneToOne success]

/-- Two glyphs, one of which elongates to the left. -/
def restoringFont : Font where
  glyphs := .ofList [("beh", 3), ("teh", 4)]
  shapes := fun glyph _ _ => some ⟨glyph, .zero, ∅⟩
  limits := LimitTable.insert {} "beh" ⟨.negOne, .one, .zero, .zero⟩

/-- A glyph without a name, an adjustment by nothing, and a block with an unknown name. -/
def restoringSteps : List AdjustmentStep :=
  [.set 9 .zero, .set 3 ⟨1, 1, 1, 1⟩, .merge [("teh", ⟨-4, 0, 0, 2⟩), ("beh", .zero), ("lam", ⟨9, 9, 9, 9⟩)]]

/-- An entry and an exit, the exit by nothing in the end. -/
def restoringBlocks : List CursiveParameters :=
  [⟨[("beh", ⟨5, -6⟩)], [("beh", ⟨7, 8⟩)]⟩, ⟨[], [("beh", .zero), ("lam", ⟨9, 9⟩), ("teh", ⟨9, 9⟩)]⟩]

/-- Less is saved than was changed, and it is enough. -/
theorem saved_adjustments_restore_encodings_of_less :
    (∃ table reloaded bytes,
      SingleAdjustment.ofRule restoringFont [("beh", ⟨5, 6, 7, 8⟩), ("teh", .zero)] = .ok table ∧
      (restoringSteps.foldl (SingleAdjustment.take restoringFont) table).encode = .ok bytes ∧
      table.merge restoringFont [("teh", ⟨-4, 0, 0, 2⟩)] = (.ok (), reloaded) ∧ reloaded.encode = .ok bytes) ∧
    ∃ table reloaded bytes, CursiveAttachment.ofRule restoringFont "join"
        [("beh", ⟨some (.point ⟨10, 20⟩), some (.point ⟨30, 40⟩)⟩)] = .ok table ∧
      (((table.mergeAll restoringFont restoringBlocks).encode restoringFont).run restoringFont.deltaSets).1 =
        .ok bytes ∧
      table.merge restoringFont ⟨[("beh", ⟨5, -6⟩)], []⟩ = (.ok (), reloaded) ∧
      ((reloaded.encode restoringFont).run restoringFont.deltaSets).1 = .ok bytes := by
  have resolves : restoringFont.resolve = restoringFont.glyphs.resolveLeaf restoringFont.dialect :=
    Font.resolve_of_no_classes rfl
  obtain ⟨single, cursive⟩ := saved_adjustments_restore_encodings restoringFont _ rfl
  constructor
  · obtain ⟨table, populated, results⟩ := @exists_of_any _ _
      (SingleAdjustment.ofRule restoringFont [("beh", ⟨5, 6, 7, 8⟩), ("teh", .zero)]) (fun table =>
        let changed := restoringSteps.foldl (SingleAdjustment.take restoringFont) table
        decide (changed.save restoringFont = .ok ⟨[("teh", ⟨-4, 0, 0, 2⟩)]⟩) && changed.encode.isOk) (by
          simp only [SingleAdjustment.ofRule, resolves]
          decide +kernel)
    rw [Bool.and_eq_true, decide_eq_true_eq] at results
    obtain ⟨saved, succeeds⟩ := results
    obtain ⟨bytes, success⟩ := exists_of_isOk succeeds
    obtain ⟨reloaded, _, merged, same, _⟩ := single _ table populated restoringSteps _ _ rfl saved
    exact ⟨table, reloaded, bytes, populated, success, merged, same.trans success⟩
  · obtain ⟨table, populated, results⟩ := @exists_of_any _ _
      (CursiveAttachment.ofRule restoringFont "join" [("beh", ⟨some (.point ⟨10, 20⟩), some (.point ⟨30, 40⟩)⟩)])
      (fun table =>
        let changed := table.mergeAll restoringFont restoringBlocks
        decide (changed.save restoringFont = .ok ⟨[("beh", ⟨5, -6⟩)], []⟩) &&
          ((changed.encode restoringFont).run restoringFont.deltaSets).1.isOk) (by
          simp only [CursiveAttachment.ofRule, resolves]
          decide +kernel)
    rw [Bool.and_eq_true, decide_eq_true_eq] at results
    obtain ⟨saved, succeeds⟩ := results
    obtain ⟨bytes, success⟩ := exists_of_isOk succeeds
    obtain ⟨reloaded, _, merged, _, same⟩ := cursive _ _ table populated restoringBlocks _ _ rfl saved
    refine ⟨table, reloaded, bytes, populated, success, merged, ?_⟩
    rw [(same _).1]
    exact success

end Kashida
