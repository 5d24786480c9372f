import Kashida.Proofs.Class.Union
import Kashida.Proofs.Overriding
import Kashida.Proofs.Positioning.MarkReader
import Kashida.Proofs.Text.ByteOrder
import Kashida.Proofs.Variation.Steps
import Mathlib.Data.List.Induction

/-! What a mark table stores of its rule: who owns each mark, and which anchor each side of a class gives. -/
namespace Kashida

/-- The rule of a class; the last one counts if a name is given twice. -/
def MarkRule.class? (rule : MarkRule) (name : String) : Option MarkClassRule := rule.classes.reverse.lookup name

/-- The anchor does not vary and is at this point. -/
def Anchor.FixedAt (point : Point) (anchor : Anchor) : Prop :=
  ∃ x y, anchor = .fixed x y ∧ x.toInt = point.x ∧ y.toInt = point.y

theorem Anchor.fixedAt_of_ofPoint {point : Point} {anchor : Anchor} (made : ofPoint point = .ok anchor) :
    anchor.FixedAt point := by
  simp only [ofPoint, bind_eq_ok_iff, pure_eq_ok_iff] at made
  obtain ⟨x, hasX, y, hasY, rfl⟩ := made
  exact ⟨x, y, rfl, (coordinate16_eq_ok_iff.mp hasX).2, (coordinate16_eq_ok_iff.mp hasY).2⟩

namespace AnchorSource

/-- The source finds its anchors as one side of a rule says, with changes to its adjustments. -/
structure Follows (font : Font) (rule : SideRule) (changes : List (ByName Point)) (source : AnchorSource) : Prop where
  function : source.function = rule.function.bind fun name => font.functions[name]?
  known : source.function.isSome = rule.function.isSome
  anchors : source.anchors = rule.anchors
  adjustments : source.adjustments = changes.foldl ByName.putAll rule.adjustments

theorem follows_of_ofRule {font : Font} {rule : SideRule} {source : AnchorSource}
    (made : ofRule font rule = .ok source) : source.Follows font rule [] := by
  unfold ofRule at made
  cases named : rule.function with
  | none =>
    simp only [named, bind_eq_ok_iff, pure_eq_ok_iff] at made
    obtain ⟨_, rfl, rfl⟩ := made
    exact ⟨by rw [named]; rfl, by rw [named]; rfl, rfl, rfl⟩
  | some name =>
    simp only [named, bind_eq_ok_iff, pure_eq_ok_iff] at made
    obtain ⟨_, found, rfl⟩ := made
    obtain ⟨function, known, rfl⟩ := map_eq_ok_iff.mp found
    have listed : font.functions[name]? = some function := by
      unfold Font.function at known
      split at known <;> cases known
      assumption
    exact ⟨by rw [named, Option.bind_some, listed], by rw [named]; rfl, rfl, rfl⟩

theorem Follows.merge {font : Font} {rule : SideRule} {changes : List (ByName Point)} {source : AnchorSource}
    (follows : source.Follows font rule changes) (change : ByName Point) :
    (source.merge change).Follows font rule (changes ++ [change]) := by
  refine ⟨follows.function, follows.known, follows.anchors, ?_⟩
  rw [List.foldl_append, ← follows.adjustments]
  rfl

def adjustment (source : AnchorSource) (glyph : String) : Point := (source.adjustments.lookup glyph).getD .zero

/-- The anchor that one side of a class gives a glyph, with the delta sets before and after it. -/
inductive Gives (font : Font) (source : AnchorSource) (category glyph : String) (before : DeltaSets) (anchor : Anchor)
    (after : DeltaSets) : Prop
  | explicit {point : Point} (present : source.anchors.lookup glyph = some point)
      (fixed : anchor.FixedAt (source.adjustment glyph + point)) (same : after = before)
  | computed {function : AnchorFunction} (absent : source.anchors.lookup glyph = none)
      (computes : source.function = some function)
      (run : (Anchor.varying font glyph (function glyph category (source.adjustment glyph) .zero .zero)
        fun left right => return function glyph category (source.adjustment glyph) left right).run before =
          (.ok anchor, after))
  | bare (absent : source.anchors.lookup glyph = none) (unknown : source.function = none)
      (fixed : anchor.FixedAt (source.adjustment glyph)) (same : after = before)

theorem gives_of_run {font : Font} {source : AnchorSource} {category glyph : String} {before after : DeltaSets}
    {anchor : Anchor} (run : (source.anchor font category glyph).run before = (.ok anchor, after)) :
    source.Gives font category glyph before anchor after := by
  unfold AnchorSource.anchor at run
  split at run
  · rename_i point present
    obtain ⟨made, same⟩ := VariationM.run_write_eq_ok_iff.mp run
    exact .explicit present (Anchor.fixedAt_of_ofPoint made) same.symm
  · rename_i function absent computes
    exact .computed absent computes run
  · rename_i absent unknown
    obtain ⟨made, same⟩ := VariationM.run_write_eq_ok_iff.mp run
    exact .bare absent unknown (Anchor.fixedAt_of_ofPoint made) same.symm

end AnchorSource

/-- The changes to one class. -/
def MarkParameters.ofClass (name : String) (parameters : MarkParameters) : List MarkClassParameters :=
  (parameters.filter fun (other, _) => other = name).map Prod.snd

namespace MarkClass

/-- The class holds what its rule says, with changes to the adjustments of its sides. -/
structure Follows (font : Font) (rule : MarkClassRule) (changes : List MarkClassParameters) (category : MarkClass) :
    Prop where
  marks : ∀ glyph, glyph ∈ category.marks ↔ ∃ name ∈ rule.marks, font.Denotes name glyph
  base : category.base.Follows font rule.base (changes.map MarkClassParameters.base)
  mark : category.mark.Follows font rule.mark (changes.map MarkClassParameters.mark)

theorem follows_of_ofRule {font : Font} {rule : MarkClassRule} {category : MarkClass}
    (made : ofRule font rule = .ok category) : category.Follows font rule [] := by
  simp only [ofRule, bind_eq_ok_iff, pure_eq_ok_iff] at made
  obtain ⟨marks, resolved, base, hasBase, mark, hasMark, rfl⟩ := made
  exact ⟨fun glyph => Font.mem_resolveAll_iff resolved, AnchorSource.follows_of_ofRule hasBase,
    AnchorSource.follows_of_ofRule hasMark⟩

theorem Follows.mergeAll {font : Font} {rule : MarkClassRule} {done : List MarkClassParameters} {category : MarkClass}
    (follows : category.Follows font rule done) (changes : List MarkClassParameters) :
    (changes.foldl MarkClass.merge category).Follows font rule (done ++ changes) := by
  induction changes generalizing category done with
  | nil => rwa [List.append_nil]
  | cons change changes ih =>
    have next : (category.merge change).Follows font rule (done ++ [change]) := by
      refine ⟨follows.marks, ?_, ?_⟩
      · rw [List.map_append]
        exact follows.base.merge change.base
      · rw [List.map_append]
        exact follows.mark.merge change.mark
    have rest := ih next
    rwa [List.append_assoc] at rest

end MarkClass

namespace MarkAttachment

theorem rel_of_foldlM {font : Font} {rules : ByName MarkClassRule} {classes : Std.TreeMap String MarkClass}
    (made : (rules.foldlM (fun (classes : Std.TreeMap String MarkClass) (name, category) => do
      return classes.insert name (← MarkClass.ofRule font category)) ∅ : Except CompileError _) = .ok classes)
    (name : String) : Option.Rel (fun rule category => MarkClass.ofRule font rule = .ok category)
      (rules.reverse.lookup name) classes[name]? := by
  induction rules using List.reverseRecOn generalizing classes with
  | nil =>
    cases made
    rw [Std.TreeMap.getElem?_emptyc]
    exact .none
  | append_singleton rules last ih =>
    simp only [List.foldlM_append, List.foldlM_cons, List.foldlM_nil, bind_eq_ok_iff, pure_eq_ok_iff] at made
    obtain ⟨before, first, _, ⟨added, isRule, rfl⟩, rfl⟩ := made
    rw [resolve_eq_ok_iff] at isRule
    obtain ⟨other, rule⟩ := last
    rw [Std.TreeMap.getElem?_insert, List.reverse_append, List.reverse_singleton, List.singleton_append,
      List.lookup_cons]
    by_cases same : other = name
    · subst same
      rw [if_pos Std.ReflCmp.compare_self, beq_self_eq_true]
      exact .some isRule
    · have different : (name == other) = false := beq_eq_false_iff_ne.mpr (Ne.symm same)
      rw [different, if_neg (by rwa [Std.LawfulEqOrd.compare_eq_iff_eq])]
      exact ih first

theorem of_ofRule {font : Font} {rule : MarkRule} {table : MarkAttachment} (made : ofRule font rule = .ok table) :
    (∀ glyph, glyph ∈ table.bases ↔ ∃ name ∈ rule.bases, font.Denotes name glyph) ∧
    ∀ name, Option.Rel (fun classRule category => MarkClass.ofRule font classRule = .ok category) (rule.class? name)
      table.classes[name]? := by
  simp only [ofRule, bind_eq_ok_iff] at made
  obtain ⟨bases, resolved, classes, listed, made⟩ := made
  split at made
  · cases made
    exact ⟨fun glyph => Font.mem_resolveAll_iff (resolve_eq_ok_iff.mp resolved), rel_of_foldlM listed⟩
  · cases made

theorem getElem?_merge (table : MarkAttachment) (parameters : MarkParameters) (name : String) :
    (table.merge parameters).classes[name]? = table.classes[name]?.map fun category =>
      (MarkParameters.ofClass name parameters).foldl MarkClass.merge category := by
  obtain ⟨bases, classes⟩ := table
  simp only [merge]
  induction parameters generalizing classes with
  | nil => exact Option.map_id'.symm
  | cons first parameters ih =>
    obtain ⟨other, block⟩ := first
    rw [List.foldl_cons, ih, Std.TreeMap.getElem?_modify]
    by_cases same : other = name
    · subst same
      simp [MarkParameters.ofClass, Function.comp_def]
    · rw [if_neg (by rwa [Std.LawfulEqOrd.compare_eq_iff_eq])]
      simp [MarkParameters.ofClass, same]

theorem bases_mergeAll (table : MarkAttachment) (blocks : List MarkParameters) :
    (blocks.foldl merge table).bases = table.bases := by
  induction blocks generalizing table with
  | nil => rfl
  | cons block blocks ih => exact ih _

theorem getElem?_mergeAll (table : MarkAttachment) (blocks : List MarkParameters) (name : String) :
    (blocks.foldl merge table).classes[name]? = table.classes[name]?.map fun category =>
      (MarkParameters.ofClass name blocks.flatten).foldl MarkClass.merge category := by
  induction blocks generalizing table with
  | nil => exact Option.map_id'.symm
  | cons block blocks ih =>
    rw [List.foldl_cons, ih, getElem?_merge, Option.map_map]
    simp only [MarkParameters.ofClass, List.flatten_cons, List.filter_append, List.map_append, List.foldl_append,
      Function.comp_def]

/-- The last class that has a mark owns it. -/
theorem getElem?_marks (table : MarkAttachment) (mark : GlyphId) :
    table.marks[mark]? = table.owners.reverse.find? fun owner => owner.category.marks.toList.contains mark := by
  unfold marks
  induction table.owners using List.reverseRecOn with
  | nil => exact Std.TreeMap.getElem?_emptyc
  | append_singleton owners last ih =>
    rw [List.foldl_append, List.foldl_cons, List.foldl_nil, getElem?_foldl_insert_same, ih, List.reverse_append,
      List.reverse_singleton, List.singleton_append, List.find?_cons]
    by_cases member : mark ∈ last.category.marks.toList
    · rw [if_pos member, List.contains_iff_mem.mpr member]
    · rw [if_neg member, Bool.eq_false_iff.mpr (mt List.contains_iff_mem.mp member)]

theorem owners_classes (table : MarkAttachment) :
    table.owners.map (fun owner => (owner.name, owner.category)) = table.classes.toList := by
  rw [owners, List.map_map]
  exact List.zipIdx_map_fst 0 _

theorem number_of_owners {table : MarkAttachment} {owner : Owner} {place : Nat}
    (found : table.owners[place]? = some owner) : owner.number = .ofNat place := by
  rw [owners, List.getElem?_map, List.getElem?_zipIdx, Option.map_map, Option.map_eq_some_iff] at found
  obtain ⟨_, _, rfl⟩ := found
  exact congrArg UInt16.ofNat (Nat.zero_add place)

/-- The class that owns a mark: it has the mark, and no class after it has. -/
structure Owns (classes : List (String × MarkClass)) (mark : GlyphId) (number : Nat) (name : String)
    (category : MarkClass) : Prop where
  place : classes[number]? = some (name, category)
  member : mark ∈ category.marks
  last : ∀ later other, number < later → classes[later]? = some other → mark ∉ other.2.marks

theorem owns_of_marks {table : MarkAttachment} {mark : GlyphId} {owner : Owner}
    (found : table.marks[mark]? = some owner) : ∃ number, owner.number = .ofNat number ∧
      Owns table.classes.toList mark number owner.name owner.category := by
  rw [getElem?_marks, List.find?_eq_some_iff_append] at found
  obtain ⟨member, later, earlier, split, others⟩ := found
  have split : table.owners = earlier.reverse ++ owner :: later.reverse := by
    rw [← List.reverse_reverse table.owners, split]
    simp
  have place : table.owners[earlier.reverse.length]? = some owner := by
    rw [split, List.getElem?_append_right (Nat.le_refl _), Nat.sub_self]
    rfl
  refine ⟨earlier.reverse.length, number_of_owners place, ?_, List.contains_iff_mem.mp member, ?_⟩
  · rw [← owners_classes, List.getElem?_map, place]
    rfl
  · intro place other behind found
    rw [← owners_classes, List.getElem?_map, Option.map_eq_some_iff] at found
    obtain ⟨another, found, rfl⟩ := found
    obtain ⟨distance, rfl⟩ := Nat.exists_eq_add_of_lt behind
    rw [split, List.getElem?_append_right (by omega), Nat.add_assoc, Nat.add_sub_cancel_left, List.getElem?_cons_succ]
      at found
    have missing := others another (List.mem_reverse.mp (List.mem_of_getElem? found))
    intro member
    rw [List.contains_iff_mem.mpr member] at missing
    cases missing

theorem mem_marks_iff {table : MarkAttachment} {mark : GlyphId} :
    mark ∈ table.marks.keys ↔ ∃ entry ∈ table.classes.toList, mark ∈ entry.2.marks := by
  rw [Std.TreeMap.mem_keys, Std.TreeMap.mem_iff_isSome_getElem?, getElem?_marks, List.find?_isSome, ← owners_classes]
  simp only [List.mem_reverse, List.contains_iff_mem, List.mem_map, exists_exists_and_eq_and]
  rfl

theorem marks_ascending (table : MarkAttachment) : table.marks.keys.Pairwise (· < ·) :=
  Std.TreeMap.ordered_keys.imp fun less => Std.compare_eq_lt.mp less

theorem names_ascending (table : MarkAttachment) : (table.classes.toList.map Prod.fst).Pairwise BytesBefore := by
  rw [Std.TreeMap.map_fst_toList_eq_keys]
  exact Std.TreeMap.ordered_keys.imp fun less => bytesBefore_of_compare less

open VariationM

/-- The row of a base: the anchor that the base side of each class gives it. -/
def GivesRow (font : Font) (classes : List (String × MarkClass)) (base : GlyphId) (before : DeltaSets)
    (row : List Anchor) (after : DeltaSets) : Prop :=
  ∃ glyph, font.glyphName base = .ok glyph ∧
    Threaded (fun (name, category) => category.base.Gives font name glyph) before classes row after

/-- The record of a mark: the number of the class that owns it, and the anchor that the mark side of that class gives
it. -/
def GivesMark (font : Font) (classes : List (String × MarkClass)) (mark : GlyphId) (before : DeltaSets)
    (record : UInt16 × Anchor) (after : DeltaSets) : Prop :=
  ∃ glyph name category, font.glyphName mark = .ok glyph ∧ Owns classes mark record.1.toNat name category ∧
    category.mark.Gives font name glyph before record.2 after

theorem run_baseAnchors {font : Font} {table : MarkAttachment} {before after : DeltaSets} {anchors : List Anchor}
    (run : (table.baseAnchors font).run before = (.ok anchors, after)) : ∃ rows, rows.flatten = anchors ∧
      Threaded (GivesRow font table.classes.toList) before table.bases.toList rows after := by
  obtain ⟨rows, _, each, last⟩ := run_bind_eq_ok_iff.mp run
  obtain ⟨rfl, rfl⟩ := run_pure_eq_ok_iff.mp last
  refine ⟨rows, rfl, (run_mapM each).imp ?_⟩
  intro base before row after run
  obtain ⟨glyph, _, first, rest⟩ := run_bind_eq_ok_iff.mp run
  obtain ⟨named, rfl⟩ := run_resolve_eq_ok_iff.mp first
  exact ⟨glyph, named, (run_mapM rest).imp fun _ _ _ _ => AnchorSource.gives_of_run⟩

theorem run_markAnchors {font : Font} {table : MarkAttachment} {before after : DeltaSets}
    {records : List (UInt16 × Anchor)} (few : table.classes.size ≤ 65535)
    (run : (table.markAnchors font).run before = (.ok records, after)) :
    Threaded (GivesMark font table.classes.toList) before table.marks.keys records after := by
  rw [← Std.TreeMap.map_fst_toList_eq_keys]
  refine Threaded.map Prod.fst ((run_mapM run).imp_of_mem ?_)
  rintro ⟨mark, owner⟩ listed before record after run
  obtain ⟨glyph, _, first, rest⟩ := run_bind_eq_ok_iff.mp run
  obtain ⟨named, rfl⟩ := run_resolve_eq_ok_iff.mp first
  obtain ⟨anchor, _, gives, last⟩ := run_bind_eq_ok_iff.mp rest
  obtain ⟨rfl, rfl⟩ := run_pure_eq_ok_iff.mp last
  obtain ⟨number, isNumber, owns⟩ := owns_of_marks (Std.TreeMap.mem_toList_iff_getElem?_eq_some.mp listed)
  have bound : number < table.classes.toList.length := (List.getElem?_eq_some_iff.mp owns.place).1
  have same : owner.number.toNat = number := by
    rw [isNumber, UInt16.toNat_ofNat']
    rw [Std.TreeMap.length_toList] at bound
    omega
  exact ⟨glyph, owner.name, owner.category, named, same.symm ▸ owns, AnchorSource.gives_of_run gives⟩

/-- The classes of a table in the order of their numbers: one for each name of the rule, by the bytes of the names, each
as its rule describes it and with the adjustments taken over since. -/
structure Lists (font : Font) (rule : MarkRule) (blocks : List MarkParameters) (classes : List (String × MarkClass)) :
    Prop where
  ascending : (classes.map Prod.fst).Pairwise BytesBefore
  named : ∀ name, name ∈ classes.map Prod.fst ↔ ∃ classRule, rule.class? name = some classRule
  follows : ∀ name category, (name, category) ∈ classes → ∃ classRule, rule.class? name = some classRule ∧
    category.Follows font classRule (MarkParameters.ofClass name blocks.flatten)

theorem lists_classes {font : Font} {rule : MarkRule} {table : MarkAttachment}
    (populated : ofRule font rule = .ok table) (blocks : List MarkParameters) :
    Lists font rule blocks (blocks.foldl merge table).classes.toList := by
  refine ⟨names_ascending _, fun name => ?_, fun name category listed => ?_⟩
  · rw [Std.TreeMap.map_fst_toList_eq_keys, Std.TreeMap.mem_keys, Std.TreeMap.mem_iff_isSome_getElem?,
      getElem?_mergeAll, Option.isSome_map, ← Option.isSome_iff_exists, isSome_of_rel ((of_ofRule populated).2 name)]
  · rw [Std.TreeMap.mem_toList_iff_getElem?_eq_some, getElem?_mergeAll, Option.map_eq_some_iff] at listed
    obtain ⟨original, found, rfl⟩ := listed
    obtain ⟨classRule, isRule, made⟩ := exists_of_rel_some (found ▸ (of_ofRule populated).2 name)
    exact ⟨classRule, isRule, (MarkClass.follows_of_ofRule made).mergeAll _⟩

/-- The bytes of a mark table read back. The coverages list in ascending order the glyphs that the base names stand for
and the marks of all classes. The classes are numbered by name; each mark has the number of the last class that holds it
and the anchor that the mark side of that class gives it, and each base has a row with the anchor that the base side of
each class in turn gives it. In both arrays the anchors lie one behind the other, each at its own offset. -/
theorem encoded_marks_read_back (font : Font) (rule : MarkRule) (table : MarkAttachment)
    (populated : ofRule font rule = .ok table) (blocks : List MarkParameters) (before after : DeltaSets)
    (bytes : List UInt8) (success : ((blocks.foldl merge table).encode font).run before = (.ok bytes, after)) :
    ∃ stored classes rows middle, StoredMarks.read (.ofBytes bytes) = .ok stored ∧
      stored.baseCoverage.glyphs.Pairwise (· < ·) ∧
      (∀ glyph, glyph ∈ stored.baseCoverage.glyphs ↔ ∃ name ∈ rule.bases, font.Denotes name glyph) ∧
      Lists font rule blocks classes ∧ stored.classCount.toNat = classes.length ∧
      stored.markCoverage.glyphs.Pairwise (· < ·) ∧
      (∀ glyph, glyph ∈ stored.markCoverage.glyphs ↔ ∃ entry ∈ classes, glyph ∈ entry.2.marks) ∧
      stored.bases.table.map (List.map (Option.map Located.table)) = rows.map (List.map some) ∧
      Threaded (GivesRow font classes) before stored.baseCoverage.glyphs rows middle ∧
      Threaded (GivesMark font classes) middle stored.markCoverage.glyphs
        (stored.marks.table.map (Prod.map id Located.table)) after ∧
      Contiguous stored.marks.stop (stored.marks.table.map Prod.snd) stored.bases.start ∧
      Contiguous stored.bases.stop (stored.bases.table.flatten.filterMap id) bytes.length := by
  obtain ⟨anchors, middle, basesRun, rest⟩ := run_bind_eq_ok_iff.mp success
  obtain ⟨records, _, marksRun, last⟩ := run_bind_eq_ok_iff.mp rest
  obtain ⟨written, rfl⟩ := run_write_eq_ok_iff.mp last
  have few : (blocks.foldl merge table).classes.size ≤ 65535 := by
    simp only [layout, bind_eq_ok_iff] at written
    obtain ⟨count, counted, _⟩ := written
    exact (count16_eq_ok_iff.mp counted).1
  obtain ⟨rows, rfl, givesRows⟩ := run_baseAnchors basesRun
  have even : ∀ row ∈ rows, row.length = (blocks.foldl merge table).classes.size := by
    intro row member
    obtain ⟨base, _, _, _, glyph, _, gives⟩ := exists_of_forall₂ givesRows.forall₂ member
    rw [← gives.forall₂.length_eq, Std.TreeMap.length_toList]
  obtain ⟨stored, isRead, isMarks, isBases, count, rfl, sameBases, marksContiguous, basesContiguous⟩ :=
    read_layout (marks_ascending _) (blocks.foldl merge table).bases.ascending givesRows.forall₂.length_eq.symm even
      written 0 []
  rw [List.append_nil] at isRead
  rw [Nat.zero_add] at basesContiguous
  refine ⟨stored, (blocks.foldl merge table).classes.toList, rows, middle, isRead, ?_⟩
  rw [isMarks, isBases]
  refine ⟨GlyphSet.ascending _, fun glyph => ?_, lists_classes populated blocks, ?_, marks_ascending _,
    fun glyph => mem_marks_iff, sameBases, givesRows, run_markAnchors few marksRun, marksContiguous, basesContiguous⟩
  · rw [bases_mergeAll]
    exact (of_ofRule populated).1 glyph
  · rw [count, Std.TreeMap.length_toList]

/-- A base that elongates to the left, and two marks. -/
def markFont : Font where
  glyphs := .ofList [("beh", 3), ("acute", 5), ("dot", 6)]
  limits := LimitTable.insert {} "beh" ⟨.negOne, .one, .zero, .zero⟩
  functions := (∅ : Std.TreeMap String AnchorFunction).insert "tip"
    (.linear ⟨100, 200⟩ (.one, .zero) (.zero, .zero))

/-- The classes share a mark. -/
def markRule : MarkRule where
  bases := ["beh"]
  classes := [("over", ⟨["acute"], ⟨none, [], [("beh", ⟨7, 8⟩)]⟩, ⟨none, [], []⟩⟩),
    ("above", ⟨["acute", "dot"], ⟨some "tip", [], []⟩, ⟨none, [], [("dot", ⟨1, 2⟩)]⟩⟩)]

/-- An adjustment of the class whose anchor varies. -/
def markBlocks : List MarkParameters := [[("above", ⟨[("beh", ⟨-9, 0⟩)], []⟩)]]

theorem encoded_marks_read_back_after_merge : ∃ table bytes after stored, ofRule markFont markRule = .ok table ∧
    ((markBlocks.foldl merge table).encode markFont).run markFont.deltaSets = (.ok bytes, after) ∧
    StoredMarks.read (.ofBytes bytes) = .ok stored ∧ 3 ∈ stored.baseCoverage.glyphs ∧
    5 ∈ stored.markCoverage.glyphs := by
  have resolves : markFont.resolve = markFont.glyphs.resolveLeaf markFont.dialect := Font.resolve_of_no_classes rfl
  have succeeds : (match ofRule markFont markRule with
      | .ok table => (((markBlocks.foldl merge table).encode markFont).run markFont.deltaSets).1.isOk
      | .error _ => false) = true := by
    simp only [ofRule, MarkClass.ofRule, Font.resolveAll_eq_mapM, resolves]
    decide +kernel
  have denotes : ∀ name glyph, markFont.glyphs.resolveLeaf markFont.dialect name = .ok (.ofList [glyph]) →
      markFont.Denotes name glyph :=
    fun name glyph found => ⟨_, resolves ▸ found, GlyphSet.mem_ofList.mpr List.mem_cons_self⟩
  cases populated : ofRule markFont markRule with
  | error error =>
    rw [populated] at succeeds
    cases succeeds
  | ok table =>
    simp only [populated] at succeeds
    generalize ran : ((markBlocks.foldl merge table).encode markFont).run markFont.deltaSets = result at succeeds
    obtain ⟨outcome, after⟩ := result
    obtain ⟨bytes, rfl⟩ := exists_of_isOk succeeds
    obtain ⟨stored, classes, _, _, isRead, _, bases, lists, _, _, marks, _⟩ := encoded_marks_read_back markFont markRule
      table populated markBlocks markFont.deltaSets after bytes ran
    obtain ⟨⟨name, category⟩, listed, isOver⟩ := List.mem_map.mp ((lists.named "over").mpr ⟨_, rfl⟩)
    obtain ⟨classRule, isRule, follows⟩ := lists.follows name category listed
    subst isOver
    cases isRule
    exact ⟨table, bytes, after, stored, rfl, ran, isRead,
      (bases 3).mpr ⟨"beh", by decide, denotes _ _ (by decide +kernel)⟩,
      (marks 5).mpr ⟨_, listed, (follows.marks 5).mpr ⟨"acute", by decide, denotes _ _ (by decide +kernel)⟩⟩⟩

end MarkAttachment

end Kashida
