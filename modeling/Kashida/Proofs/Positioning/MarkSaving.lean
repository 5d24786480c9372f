import Kashida.Proofs.Positioning.MarkReadjusting
import Kashida.Proofs.Positioning.NamedValues

/-! What saved adjustments are worth to a mark table that is populated again. They hold whatever the old table adjusts,
but cannot say that an adjustment of the rule was taken back. -/
namespace Kashida

/-- Saved adjustments win over those that are there, but nothing is saved of an adjustment by nothing. -/
theorem AnchorSource.adjustment_merge_changes {changed : AnchorSource} (distinct : changed.adjustments.Distinct)
    (source : AnchorSource) (glyph : String) : (source.merge changed.changes).adjustment glyph =
      if changed.adjustment glyph = .zero then source.adjustment glyph else changed.adjustment glyph := by
  have saved : changed.changes.lookup glyph = (changed.adjustments.lookup glyph).filter fun point => !point.isZero :=
    distinct.lookup_filter (fun point => !point.isZero) glyph
  have keptDistinct : changed.changes.Distinct := distinct.filter _
  unfold adjustment merge
  rw [keptDistinct.lookup_putAll, saved]
  cases changed.adjustments.lookup glyph with
  | none => rfl
  | some point =>
    rw [Option.filter_some, Option.getD_some, Point.isZero]
    by_cases isZero : point = .zero
    · rw [if_pos isZero, beq_iff_eq.mpr isZero]
      rfl
    · rw [if_neg isZero, beq_eq_false_iff_ne.mpr isZero]
      rfl

theorem MarkClass.adjustment_merge_save {changed : MarkClass}
    (distinct : ∀ side, (changed.side side).adjustments.Distinct) (category : MarkClass) (side : MarkSide)
    (glyph : String) :
    ((category.merge changed.save).side side).adjustment glyph =
      if (changed.side side).adjustment glyph = .zero then (category.side side).adjustment glyph
      else (changed.side side).adjustment glyph := by
  cases side with
  | base => exact AnchorSource.adjustment_merge_changes (distinct .base) category.base glyph
  | mark => exact AnchorSource.adjustment_merge_changes (distinct .mark) category.mark glyph

theorem MarkParameters.ofClass_of_distinct {parameters : MarkParameters} (distinct : parameters.Distinct)
    (name : String) : ofClass name parameters = (parameters.lookup name).toList := by
  induction parameters with
  | nil => rfl
  | cons entry parameters ih =>
    obtain ⟨new, rest⟩ := List.nodup_cons.mp distinct
    have others := ih rest
    unfold ofClass at others ⊢
    rw [List.filter_cons, ByName.lookup_cons]
    by_cases isName : name = entry.1
    · rw [if_pos isName, if_pos (decide_eq_true isName.symm), List.map_cons, others,
        ByName.lookup_eq_none (isName ▸ new)]
      rfl
    · rw [if_neg isName, if_neg (by simpa using Ne.symm isName), others]

def MarkClassRule.side (rule : MarkClassRule) : MarkSide → SideRule
  | .base => rule.base
  | .mark => rule.mark

def MarkClassParameters.side (parameters : MarkClassParameters) : MarkSide → ByName Point
  | .base => parameters.base
  | .mark => parameters.mark

theorem MarkClass.Follows.adjustments {category : MarkClass} (follows : category.Follows font rule changes)
    (side : MarkSide) : (category.side side).adjustments =
      (changes.map fun change => change.side side).foldl ByName.putAll (rule.side side).adjustments := by
  cases side with
  | base => exact follows.base.adjustments
  | mark => exact follows.mark.adjustments

namespace MarkRule

/-- What the rule adds to the anchor that one side of a class gives a glyph. -/
def adjustment (rule : MarkRule) (name : String) (side : MarkSide) (glyph : String) : Point :=
  ((rule.class? name).map fun category => ((category.side side).adjustments.lookup glyph).getD .zero).getD .zero

/-- No class of the rule adjusts a glyph twice. -/
def Distinct (rule : MarkRule) : Prop := ∀ entry ∈ rule.classes, ∀ side, (entry.2.side side).adjustments.Distinct

theorem mem_of_class? {rule : MarkRule} (found : rule.class? name = some category) : (name, category) ∈ rule.classes :=
  List.mem_reverse.mp (ByName.mem_of_lookup found)

theorem exists_of_adjustment {rule : MarkRule} (declared : rule.adjustment name side glyph ≠ .zero) :
    ∃ category point, (name, category) ∈ rule.classes ∧ (glyph, point) ∈ (category.side side).adjustments := by
  unfold adjustment at declared
  cases isRule : rule.class? name with
  | none => exact absurd (by rw [isRule]; rfl) declared
  | some category =>
    rw [isRule, Option.map_some, Option.getD_some] at declared
    cases adjusts : (category.side side).adjustments.lookup glyph with
    | none => exact absurd (by rw [adjusts]; rfl) declared
    | some point => exact ⟨category, point, mem_of_class? isRule, ByName.mem_of_lookup adjusts⟩

end MarkRule

namespace MarkAttachment

theorem mergeAll_save {table : MarkAttachment} {name : String} (found : table.classes[name]? = some category)
    (original : MarkClass) : (MarkParameters.ofClass name table.save).foldl MarkClass.merge original =
      original.merge category.save := by
  have distinct : ByName.Distinct (table.classes.toList.map fun entry => (entry.1, entry.2.save)) := by
    rw [ByName.Distinct, List.map_map]
    exact Std.TreeMap.map_fst_toList_eq_keys ▸ Std.TreeMap.nodup_keys
  have listed : (name, category.save) ∈ table.classes.toList.map fun entry => (entry.1, entry.2.save) :=
    List.mem_map.mpr ⟨_, Std.TreeMap.mem_toList_iff_getElem?_eq_some.mpr found, rfl⟩
  have saved : table.save.lookup name = (some category.save).filter fun block => decide (block ≠ {}) := by
    rw [← distinct.lookup_of_mem listed, ← distinct.lookup_filter]
    rfl
  have savedDistinct : table.save.Distinct := distinct.filter _
  rw [MarkParameters.ofClass_of_distinct savedDistinct, saved, Option.filter_some]
  by_cases empty : category.save = {}
  · rw [empty]
    rfl
  · rw [if_pos (decide_eq_true empty)]
    rfl

/-- A table that takes over what another one saved, which was made of it, differs from that in its adjustments. -/
theorem readjusted_save (table : MarkAttachment) (blocks : List MarkParameters) :
    Readjusted (fun name category => (table.classes[name]?.getD category).merge category.save)
      (blocks.foldl merge table) (table.merge (blocks.foldl merge table).save) := by
  constructor
  · exact (bases_mergeAll table blocks).symm
  · intro name
    rw [getElem?_merge]
    cases found : table.classes[name]? with
    | none => rw [getElem?_mergeAll, found]; rfl
    | some original =>
      have changed := (getElem?_mergeAll table blocks name).trans (by rw [found, Option.map_some])
      rw [changed, Option.map_some, Option.map_some, mergeAll_save changed, Option.getD_some]
  · intro name category found
    rw [getElem?_mergeAll, Option.map_eq_some_iff] at found
    obtain ⟨original, found, rfl⟩ := found
    rw [found, Option.getD_some]
    exact ((MarkClass.Readjusted.refl original).mergeAll _).join ((MarkClass.Readjusted.refl original).merge _)

theorem adjustment_of_ofRule (populated : ofRule font rule = .ok table) (name : String) (side : MarkSide)
    (glyph : String) : table.adjustment name side glyph = rule.adjustment name side glyph := by
  have related := (of_ofRule populated).2 name
  rw [adjustment, MarkRule.adjustment]
  generalize rule.class? name = classRule at related ⊢
  generalize table.classes[name]? = category at related ⊢
  cases related with
  | none => rfl
  | some made =>
    rw [Option.map_some, Option.map_some, Option.getD_some, Option.getD_some, AnchorSource.adjustment,
      (MarkClass.follows_of_ofRule made).adjustments side]
    rfl

/-- Overrides leave no name there twice. -/
theorem distinct_mergeAll (distinct : rule.Distinct) (populated : ofRule font rule = .ok table)
    (blocks : List MarkParameters) {name : String} {category : MarkClass}
    (found : (blocks.foldl merge table).classes[name]? = some category) (side : MarkSide) :
    (category.side side).adjustments.Distinct := by
  obtain ⟨classRule, isRule, follows⟩ := (lists_classes populated blocks).follows name category
    (Std.TreeMap.mem_toList_iff_getElem?_eq_some.mpr found)
  rw [follows.adjustments side]
  exact (distinct _ (MarkRule.mem_of_class? isRule) side).foldl_putAll _

/-- What saved adjustments leave of those of the rule. -/
theorem adjustment_save (distinct : rule.Distinct) (populated : ofRule font rule = .ok table)
    (blocks : List MarkParameters) (name : String) (side : MarkSide) (glyph : String) :
    (table.merge (blocks.foldl merge table).save).adjustment name side glyph =
      if (blocks.foldl merge table).adjustment name side glyph = .zero then rule.adjustment name side glyph
      else (blocks.foldl merge table).adjustment name side glyph := by
  rw [← adjustment_of_ofRule populated, adjustment, adjustment, adjustment, getElem?_merge]
  cases found : table.classes[name]? with
  | none => rw [getElem?_mergeAll, found]; rfl
  | some original =>
    have changed := (getElem?_mergeAll table blocks name).trans (by rw [found, Option.map_some])
    rw [Option.map_some, mergeAll_save changed, changed]
    exact MarkClass.adjustment_merge_save (distinct_mergeAll distinct populated blocks changed) original side glyph

/-- The rule adjusts the anchor, and changes took that back. -/
def TakenBack (rule : MarkRule) (changed : MarkAttachment) (name : String) (side : MarkSide) (glyph : String) : Prop :=
  rule.adjustment name side glyph ≠ .zero ∧ changed.adjustment name side glyph = .zero

/-- A table is changed and saved, and one that is populated anew takes over what was saved. It has the adjustments of
the first, apart from those of the rule that were taken back, which it has again. If there are none of these among the
anchors, both tables encode alike, whatever was encoded before. One among the anchors that no function computes is
enough to tell them apart: the new table then never has the bytes of the first. -/
theorem saved_adjustments_encode_alike_unless_taken_back (font : Font) (rule : MarkRule) (distinct : rule.Distinct)
    (table : MarkAttachment) (populated : ofRule font rule = .ok table) (blocks : List MarkParameters)
    (changed reloaded : MarkAttachment) (isChanged : changed = blocks.foldl merge table)
    (isReloaded : reloaded = table.merge changed.save) :
    (∀ name side glyph, reloaded.adjustment name side glyph =
      if changed.adjustment name side glyph = .zero then rule.adjustment name side glyph
      else changed.adjustment name side glyph) ∧
    ((∀ name side glyph, changed.Anchors font name side glyph → ¬TakenBack rule changed name side glyph) →
      ∀ sets, (reloaded.encode font).run sets = (changed.encode font).run sets) ∧
    ∀ name side glyph, changed.Anchors font name side glyph → TakenBack rule changed name side glyph →
      ¬changed.Computes name side glyph → ∀ before bytes after, (changed.encode font).run before = (.ok bytes, after) →
        ∀ start stop, (reloaded.encode font).run start ≠ (.ok bytes, stop) := by
  subst isChanged isReloaded
  have adjustments := adjustment_save distinct populated blocks
  have readjusted := readjusted_save table blocks
  refine ⟨adjustments, fun kept sets => ?_, ?_⟩
  · rw [readjusted.encode_eq]
    intro name side glyph anchored
    rw [adjustments]
    split
    · rename_i isZero
      have undeclared : rule.adjustment name side glyph = .zero :=
        Decidable.byContradiction fun declared => kept name side glyph anchored ⟨declared, isZero⟩
      rw [undeclared, isZero]
    · rfl
  · rintro name side glyph anchored ⟨declared, isZero⟩ plain before bytes after run start stop runToo
    have same := readjusted.adjustment_eq anchored plain run runToo
    rw [adjustments, if_pos isZero, isZero] at same
    exact declared same

/-- Both sides adjust an anchor. -/
def adjustingRule : MarkRule where
  bases := ["beh"]
  classes := [("over", ⟨["acute"], ⟨none, [("beh", ⟨7, 8⟩)], []⟩, ⟨none, [], []⟩⟩),
    ("above", ⟨["dot"], ⟨some "tip", [], []⟩, ⟨none, [("dot", ⟨1, 2⟩)], [("dot", ⟨10, 20⟩)]⟩⟩)]

/-- One adjustment is there for a while only, and another takes the place of one of the rule. -/
def passingBlocks : List MarkParameters :=
  [[("above", ⟨[("beh", ⟨-9, 0⟩)], [("dot", ⟨4, 4⟩)]⟩)], [("above", ⟨[("beh", ⟨0, 0⟩)], []⟩)]]

theorem saved_adjustments_encode_alike_unless_taken_back_of_passing : ∃ table bytes,
    ofRule markFont adjustingRule = .ok table ∧
    (((passingBlocks.foldl merge table).encode markFont).run markFont.deltaSets).1 = .ok bytes ∧
    ∀ sets, ((table.merge (passingBlocks.foldl merge table).save).encode markFont).run sets =
      ((passingBlocks.foldl merge table).encode markFont).run sets := by
  have resolves : markFont.resolve = markFont.glyphs.resolveLeaf markFont.dialect := Font.resolve_of_no_classes rfl
  have computed : ((ofRule markFont adjustingRule).toOption.any fun table =>
      decide ((passingBlocks.foldl merge table).adjustment "over" .base "beh" = ⟨7, 8⟩) &&
      decide ((passingBlocks.foldl merge table).adjustment "above" .mark "dot" = ⟨4, 4⟩) &&
      (((passingBlocks.foldl merge table).encode markFont).run markFont.deltaSets).1.isOk) = true := by
    simp only [ofRule, MarkClass.ofRule, Font.resolveAll_eq_mapM, resolves]
    decide +kernel
  have distinct : adjustingRule.Distinct := by
    intro entry listed side
    cases side <;> revert entry <;> decide
  obtain ⟨table, populated, results⟩ := exists_of_any computed
  simp only [Bool.and_eq_true, decide_eq_true_eq] at results
  obtain ⟨⟨overBeh, aboveDot⟩, succeeds⟩ := results
  obtain ⟨bytes, success⟩ := exists_of_isOk succeeds
  refine ⟨table, bytes, populated, success, ?_⟩
  obtain ⟨_, alike, _⟩ := saved_adjustments_encode_alike_unless_taken_back markFont adjustingRule distinct table
    populated passingBlocks _ _ rfl rfl
  apply alike
  rintro name side glyph _ ⟨declared, isZero⟩
  obtain ⟨category, point, listed, adjusts⟩ := MarkRule.exists_of_adjustment declared
  simp only [adjustingRule, List.mem_cons, List.not_mem_nil, or_false, Prod.mk.injEq] at listed
  obtain ⟨rfl, rfl⟩ | ⟨rfl, rfl⟩ := listed <;> cases side <;>
    simp only [MarkClassRule.side, List.mem_cons, List.not_mem_nil, or_false, Prod.mk.injEq] at adjusts
  · rw [adjusts.1, overBeh] at isZero
    cases isZero
  · rw [adjusts.1, aboveDot] at isZero
    cases isZero

/-- The adjustment of the rule is overridden by nothing. -/
def zeroBlocks : List MarkParameters := [[("over", ⟨[("beh", ⟨0, 0⟩)], []⟩)]]

theorem adjustment_taken_back_returns : ∃ table first second, ofRule markFont adjustingRule = .ok table ∧
    (((zeroBlocks.foldl merge table).encode markFont).run markFont.deltaSets).1 = .ok first ∧
    (((table.merge (zeroBlocks.foldl merge table).save).encode markFont).run markFont.deltaSets).1 = .ok second ∧
    first ≠ second := by
  have resolves : markFont.resolve = markFont.glyphs.resolveLeaf markFont.dialect := Font.resolve_of_no_classes rfl
  have computed : ((ofRule markFont adjustingRule).toOption.any fun table =>
      (((zeroBlocks.foldl merge table).encode markFont).run markFont.deltaSets).1.toOption.any fun first =>
        (((table.merge (zeroBlocks.foldl merge table).save).encode markFont).run markFont.deltaSets).1.toOption.any
          fun second => decide (first ≠ second)) = true := by
    simp only [ofRule, MarkClass.ofRule, Font.resolveAll_eq_mapM, resolves]
    decide +kernel
  obtain ⟨table, populated, rest⟩ := exists_of_any computed
  obtain ⟨first, isFirst, rest⟩ := exists_of_any rest
  obtain ⟨second, isSecond, differ⟩ := exists_of_any rest
  exact ⟨table, first, second, populated, isFirst, isSecond, of_decide_eq_true differ⟩

end MarkAttachment

end Kashida
