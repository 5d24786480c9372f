import Kashida.Proofs.Lookup.Layouts
import Kashida.Proofs.Lookup.Nesting

/-! Blocks out of reach of their offsets. A subtable whose counts and values are in range and whose references resolve
has a layout, and it is encoded to that layout or not at all. Every offset that is written is then the position of its
block; if one cannot be written, the failure is an overflow, but for a cursive table whose coverage is out of reach. -/
namespace Kashida

open VariationM

theorem Settles.run {outcome : Except WriteError α} (settles : Settles outcome places value) (sets : DeltaSets) :
    (liftM outcome : VariationM α).run sets =
      (if InReach places then .ok value else .error (.write .offsetOverflow), sets) := by
  show (outcome.mapError CompileError.write, sets) = _
  rw [settles]
  split <;> rfl

theorem VariationM.run_bind_of_ok {first : VariationM α} {next : α → VariationM β} {before middle : DeltaSets}
    (run : first.run before = (.ok value, middle)) : (first >>= next).run before = (next value).run middle := by
  rw [run_bind, run]

namespace Subtable

/-- The layout of a subtable, with the delta sets before and after its anchors. There is one if all its parts can be
counted, its values are in range and its references resolve. -/
inductive Plans (font : Font) (names : LookupNames) (owner : String) :
    Subtable → DeltaSets → TablePlan → DeltaSets → Prop
  | standard {table : SingleSubstitution} {pairs : List (GlyphId × GlyphId)}
      (format : table.format = .plain ∨ font.options.extended = false) (few : table.entries.size ≤ 65535)
      (shapes : List.Forall₂ (fun entry pair => pair.1 = entry.1 ∧ entry.2.Becomes font table.format pair.2)
        table.entries.toList pairs) :
      Plans font names owner (.single table) sets { whole := SingleSubstitution.pairTable pairs } sets
  | extended {table : SingleSubstitution} {records : List (List UInt8)} (format : table.format ≠ .plain)
      (supported : font.options.extended = true) (few : table.entries.size ≤ 65535)
      (values : List.Forall₂ (fun entry record =>
        SingleSubstitution.encodeEntry font table.format entry.2 = .ok record) table.entries.toList records) :
      Plans font names owner (.single table) sets { whole := table.recordTable records } sets
  | multiple {table : MultipleSubstitution} (few : table.sequences.size ≤ 65535)
      (short : ∀ sequence ∈ table.ordered, sequence.length ≤ 65535) :
      Plans font names owner (.multiple table) sets table.plan sets
  | ligature {table : LigatureSubstitution} (few : table.sets.length ≤ 65535)
      (short : ∀ set ∈ table.sets.map Prod.snd, set.length ≤ 65535 ∧
        ∀ ligature ∈ set, ligature.components.length ≤ 65535) :
      Plans font names owner (.ligature table) sets table.plan sets
  | adjustment {table : SingleAdjustment} {records : List ValueRecord} (few : table.records.size ≤ 65535)
      (values : List.Forall₂ (fun entry record => table.adjusted entry.1 entry.2 = .ok record)
        table.records.toList records) :
      Plans font names owner (.adjustment table) sets { whole := table.recordTable records } sets
  | cursive {table : CursiveAttachment} {anchors : List (Option Anchor)} (few : table.anchors.size ≤ 65535)
      (values : Threaded (table.Computes font) before (CursiveAttachment.sides table.anchors.keys) anchors after) :
      Plans font names owner (.cursive table) before
        { whole := CursiveAttachment.linked table.anchors.keys anchors } after
  | mark {table : MarkAttachment} {baseAnchors : List Anchor} {markAnchors : List (UInt16 × Anchor)}
      (fewClasses : table.classes.size ≤ 65535) (fewMarks : table.marks.size ≤ 65535)
      (fewBases : table.bases.toList.length ≤ 65535)
      (bases : (table.baseAnchors font).run before = (.ok baseAnchors, middle))
      (marks : (table.markAnchors font).run middle = (.ok markAnchors, after)) :
      Plans font names owner (.mark table) before
        (MarkAttachment.plan table.classes.size table.marks.keys table.bases.toList markAnchors baseAnchors) after
  | chaining {context : ChainedContext} {actions : List (UInt16 × UInt16)}
      (fewBacktrack : context.backtrack.length ≤ 65535) (fewInput : context.input.length ≤ 65535)
      (fewLookahead : context.lookahead.length ≤ 65535) (fewActions : context.actions.length ≤ 65535)
      (sizes : ∀ set ∈ context.sets, set.toList.length ≤ 65535)
      (references : List.Forall₂ (fun action number => context.resolveAction names owner action = .ok number)
        context.actions actions) :
      Plans font names owner (.chaining context) sets { whole := context.linked actions } sets

/-- How a subtable reports that a block is out of reach. A cursive table of more than 16382 glyphs takes the offset of
its coverage for a count. -/
def overflow : Subtable → WriteError
  | .cursive table => if table.anchors.size ≤ 16382 then .offsetOverflow else .badValue
  | _ => .offsetOverflow

end Subtable

namespace CursiveAttachment

theorem run_ends {font : Font} {table : CursiveAttachment} {glyphs : List GlyphId} {anchors : List (Option Anchor)}
    (computes : Threaded (table.Computes font) before (sides glyphs) anchors after) : ∃ ends, ends.flatten = anchors ∧
      (glyphs.mapM fun glyph => do
        return [← table.anchor font .entry glyph, ← table.anchor font .exit glyph]).run before = (.ok ends, after) := by
  induction glyphs generalizing before anchors with
  | nil =>
    cases computes
    exact ⟨[], rfl, rfl⟩
  | cons glyph glyphs ih =>
    obtain - | ⟨entry, - | ⟨exit, rest⟩⟩ := computes
    obtain ⟨ends, rfl, run⟩ := ih rest
    refine ⟨[_, _] :: ends, rfl, ?_⟩
    rw [List.mapM_cons]
    refine run_bind_eq_ok_iff.mpr ⟨_, _, ?_, run_bind_eq_ok_iff.mpr ⟨_, _, run, rfl⟩⟩
    exact run_bind_eq_ok_iff.mpr ⟨_, _, entry, run_bind_eq_ok_iff.mpr ⟨_, _, exit, rfl⟩⟩

theorem run_encode_of_computes {font : Font} {table : CursiveAttachment} {anchors : List (Option Anchor)}
    (computes : Threaded (table.Computes font) before (sides table.anchors.keys) anchors after) :
    (table.encode font).run before = ((layout table.anchors.keys anchors).mapError .write, after) := by
  obtain ⟨ends, rfl, run⟩ := run_ends computes
  exact run_bind_of_ok run

end CursiveAttachment

namespace Subtable

variable {font : Font} {names : LookupNames} {owner : String} {subtable : Subtable} {before after : DeltaSets}

/-- A subtable with a layout is encoded to it, unless a block is out of reach. -/
theorem Plans.run_encode {plan : TablePlan} (plans : Plans font names owner subtable before plan after) :
    (subtable.encode font names owner).run before =
      (if InReach plan.targets then .ok plan.whole.render else .error (.write subtable.overflow), after) := by
  cases plans with
  | @standard _ table pairs format few shapes =>
    have glyphs : pairs.map Prod.fst = table.entries.keys := by
      rw [← Std.TreeMap.map_fst_toList_eq_keys]
      exact map_eq_map_iff.mpr (shapes.imp fun entry pair becomes => becomes.1).flip
    have count : pairs.length = table.entries.size := by rw [← shapes.length_eq, Std.TreeMap.length_toList]
    have laid := SingleSubstitution.settles_encodePairs (glyphs ▸ keys_ascending table.entries) (count ▸ few)
    show (table.encode font, _) = _
    rw [SingleSubstitution.encode_of_becomes format shapes, TablePlan.targets_of_whole]
    exact laid.run _
  | @extended _ table records format supported few values =>
    obtain ⟨outcome, same, laid⟩ := SingleSubstitution.encodeExtended_of_values few (mapM_eq_ok_iff.mpr values)
    show (table.encode font, _) = _
    rw [SingleSubstitution.encode, SingleSubstitution.isExtended, if_pos (by simp [format]), if_pos supported, same,
      TablePlan.targets_of_whole]
    exact laid.run _
  | multiple few short => exact (MultipleSubstitution.settles_encode few short).run _
  | ligature few short => exact (LigatureSubstitution.settles_encode few short).run _
  | adjustment few values =>
    rw [TablePlan.targets_of_whole]
    exact (SingleAdjustment.settles_encode few (mapM_eq_ok_iff.mpr values)).run _
  | @cursive _ _ table anchors few values =>
    have count : table.anchors.keys.length = table.anchors.size := Std.TreeMap.length_keys
    have paired : anchors.length = 2 * table.anchors.keys.length := by
      rw [← values.forall₂.length_eq, CursiveAttachment.sides_length]
    show (table.encode font).run before = _
    rw [CursiveAttachment.run_encode_of_computes values,
      CursiveAttachment.layout_eq table.keys_ascending (count ▸ few) paired, TablePlan.targets_of_whole, overflow,
      count]
    split <;> rfl
  | @mark _ _ _ table baseAnchors markAnchors fewClasses fewMarks fewBases bases marks =>
    have count : table.marks.keys.length = table.marks.size := Std.TreeMap.length_keys
    have all : markAnchors.length = table.marks.keys.length := by
      rw [← (run_mapM marks).forall₂.length_eq, Std.TreeMap.length_toList, count]
    have laid : Settles (MarkAttachment.layout _ _ _ markAnchors baseAnchors) _ _ := MarkAttachment.settles_layout
      table.marks_ascending table.bases.ascending fewClasses (count ▸ fewMarks) fewBases all
    show (table.encode font).run before = _
    rw [MarkAttachment.encode, run_bind_of_ok bases, run_bind_of_ok marks]
    exact laid.run _
  | @chaining _ context actions fewBacktrack fewInput fewLookahead fewActions sizes references =>
    have laid := ChainedContext.settles_layout fewBacktrack fewInput fewLookahead
      (references.length_eq ▸ fewActions) sizes
    show (context.encode names owner, _) = _
    rw [ChainedContext.encode, mapM_eq_ok_iff.mpr references, TablePlan.targets_of_whole]
    exact laid.run _

/-- A subtable that was encoded has a layout. -/
theorem exists_plans (run : (subtable.encode font names owner).run before = (.ok bytes, after)) :
    ∃ plan, Plans font names owner subtable before plan after := by
  cases subtable with
  | single table =>
    obtain ⟨written, rfl⟩ : table.encode font = .ok bytes ∧ before = after := Prod.mk.inj run
    by_cases format : table.format = .plain ∨ font.options.extended = false
    · obtain ⟨pairs, shapes⟩ := SingleSubstitution.exists_becomes_of_encode format written
      rw [SingleSubstitution.encode_of_becomes format shapes, mapError_eq_ok_iff] at written
      have few := SingleSubstitution.count_of_encodePairs written
      rw [← shapes.length_eq, Std.TreeMap.length_toList] at few
      exact ⟨_, .standard format few shapes⟩
    · obtain ⟨format, supported⟩ := not_or.mp format
      rw [Bool.not_eq_false] at supported
      rw [SingleSubstitution.encode, SingleSubstitution.isExtended, if_pos (by simp [format]), if_pos supported]
        at written
      obtain ⟨few, records, values⟩ := SingleSubstitution.values_of_encodeExtended written
      exact ⟨_, .extended format supported few values⟩
  | multiple table =>
    obtain ⟨written, rfl⟩ := run_write_eq_ok_iff.mp run
    obtain ⟨few, short⟩ := MultipleSubstitution.counts_of_encode written
    exact ⟨_, .multiple few short⟩
  | ligature table =>
    obtain ⟨written, rfl⟩ := run_write_eq_ok_iff.mp run
    obtain ⟨few, sets, _⟩ := LigatureSubstitution.exists_encode_iff.mp ⟨bytes, written⟩
    refine ⟨_, .ligature few ?_⟩
    rw [List.forall_mem_map]
    exact fun set member => ⟨(sets set member).1, (sets set member).2.1⟩
  | adjustment table =>
    obtain ⟨written, rfl⟩ := run_write_eq_ok_iff.mp run
    obtain ⟨few, records, values⟩ := SingleAdjustment.values_of_encode written
    exact ⟨_, .adjustment few values⟩
  | cursive table =>
    obtain ⟨anchors, values, written⟩ := CursiveAttachment.run_encode run
    have few := CursiveAttachment.count_of_layout written
    rw [Std.TreeMap.length_keys] at few
    exact ⟨_, .cursive few values⟩
  | mark table =>
    obtain ⟨baseAnchors, middle, bases, rest⟩ := run_bind_eq_ok_iff.mp run
    obtain ⟨markAnchors, last, marks, rest⟩ := run_bind_eq_ok_iff.mp rest
    obtain ⟨written, rfl⟩ := run_write_eq_ok_iff.mp rest
    obtain ⟨fewClasses, fewMarks, fewBases⟩ :=
      MarkAttachment.counts_of_layout table.marks_ascending table.bases.ascending written
    rw [Std.TreeMap.length_keys] at fewMarks
    exact ⟨_, .mark fewClasses fewMarks fewBases bases marks⟩
  | chaining context =>
    obtain ⟨written, rfl⟩ : context.encode names owner = .ok bytes ∧ before = after := Prod.mk.inj run
    obtain ⟨actions, resolved, laid⟩ := ChainedContext.encode_eq_ok_iff.mp written
    have references := mapM_eq_ok_iff.mp resolved
    obtain ⟨⟨fewBacktrack, fewInput, fewLookahead⟩, fewActions, sizes⟩ :=
      ChainedContext.counts_of_layout references.length_eq.symm laid
    exact ⟨_, .chaining fewBacktrack fewInput fewLookahead fewActions sizes references⟩

/-- Bytes of a subtable are its layout, with every block in reach. -/
theorem exists_plans_in_reach (run : (subtable.encode font names owner).run before = (.ok bytes, after)) :
    ∃ plan, Plans font names owner subtable before plan after ∧ InReach plan.targets ∧ plan.whole.render = bytes := by
  obtain ⟨plan, plans⟩ := exists_plans run
  refine ⟨plan, plans, ?_⟩
  rw [plans.run_encode] at run
  have outcome := congrArg Prod.fst run
  by_cases reached : InReach plan.targets
  · rw [if_pos reached] at outcome
    exact ⟨reached, Except.ok.inj outcome⟩
  · rw [if_neg reached] at outcome
    cases outcome

end Subtable

/-- The layout of a slot. Bytes that it has stand for themselves. -/
inductive LookupSlot.Plans (font : Font) (names : LookupNames) (owner : String) :
    LookupSlot → DeltaSets → TablePlan → DeltaSets → Prop
  | kept {subtable : Subtable} :
      Plans font names owner ⟨subtable, some content⟩ sets { whole := .ofBytes content } sets
  | made {subtable : Subtable} (plans : subtable.Plans font names owner before plan after) :
      Plans font names owner ⟨subtable, none⟩ before plan after

theorem LookupSlot.Plans.gives {slot : LookupSlot} {plan : TablePlan}
    (plans : slot.Plans font names owner before plan after) (reached : InReach plan.targets) :
    slot.Gives font names owner before plan.whole.render after := by
  cases plans with
  | @kept _ content =>
    rw [LinkedTable.ofBytes_render]
    exact .kept
  | made plans =>
    refine .made ?_
    rw [plans.run_encode, if_pos reached]

namespace Lookup

theorem gives_of_plans {slots : List LookupSlot} {plans : List TablePlan}
    (planned : Threaded (LookupSlot.Plans font names owner) before slots plans after)
    (reached : ∀ plan ∈ plans, InReach plan.targets) :
    Threaded (LookupSlot.Gives font names owner) before slots (plans.map fun plan => plan.whole.render) after := by
  induction planned with
  | nil => exact .nil
  | cons here _ ih =>
    obtain ⟨first, rest⟩ := List.forall_mem_cons.mp reached
    exact .cons (here.gives first) (ih rest)

/-- The first slot with a block out of reach ends the encoding. -/
theorem encodeSlots_of_far {slots : List LookupSlot} {plans : List TablePlan} {index : Nat} {plan : TablePlan}
    (planned : Threaded (LookupSlot.Plans font names owner) before slots plans after)
    (found : plans[index]? = some plan) (far : ¬InReach plan.targets)
    (earlier : ∀ other ∈ plans.take index, InReach other.targets) (start : Nat) : ∃ slot, slots[index]? = some slot ∧
      (encodeSlots font names owner start slots before).1 =
        .error (.inLookup owner (start + index) (.write slot.subtable.overflow)) := by
  induction planned generalizing index start with
  | nil => cases found
  | cons here _ ih =>
    cases index with
    | zero =>
      obtain rfl := Option.some.inj found
      refine ⟨_, rfl, ?_⟩
      -- Bytes that are kept lead nowhere, so it is the subtable that does not fit.
      cases here with
      | kept => exact absurd inReach_nil far
      | made plans =>
        rw [encodeSlots, plans.run_encode, if_neg far]
        rfl
    | succ index =>
      obtain ⟨first, rest⟩ := List.forall_mem_cons.mp earlier
      obtain ⟨slot, present, failed⟩ := ih found rest (start + 1)
      refine ⟨slot, present, ?_⟩
      rw [Nat.add_right_comm, Nat.add_assoc] at failed
      cases here with
      | kept => exact failed
      | made plans =>
        rw [encodeSlots, plans.run_encode, if_pos first]
        exact failed

/-- Slots that were filled have layouts, with every block in reach. -/
theorem exists_plans_of_encodeSlots {slots : List LookupSlot} {index : Nat}
    (success : (encodeSlots font names owner index slots before).1 = .ok ()) : ∃ plans after,
      Threaded (LookupSlot.Plans font names owner) before slots plans after ∧
      ∀ plan ∈ plans, InReach plan.targets := by
  induction slots generalizing index before with
  | nil => exact ⟨[], before, .nil, List.forall_mem_nil _⟩
  | cons slot slots ih =>
    obtain ⟨subtable, _ | content⟩ := slot
    · rw [encodeSlots] at success
      generalize run : (subtable.encode font names owner).run before = result at success
      obtain ⟨error | content, middle⟩ := result
      · cases success
      · obtain ⟨plans, after, planned, reached⟩ := ih success
        obtain ⟨plan, here, near, _⟩ := Subtable.exists_plans_in_reach run
        exact ⟨plan :: plans, after, .cons (.made here) planned, List.forall_mem_cons.mpr ⟨near, reached⟩⟩
    · obtain ⟨plans, after, planned, reached⟩ := ih success
      exact ⟨_, after, .cons .kept planned, List.forall_mem_cons.mpr ⟨inReach_nil, reached⟩⟩

/-- Kind, flags and count, the links to the subtables, and the filtering set. -/
def linked (lookup : Lookup) (contents : List (List UInt8)) : LinkedTable :=
  .index (word16 lookup.kind.number ++ word16 lookup.flags ++ word16 (.ofNat contents.length)) lookup.filteringBytes
    contents

theorem settles_assemble {lookup : Lookup} {contents : List (List UInt8)} (few : contents.length ≤ 65535) :
    Settles (lookup.assemble contents) (lookup.linked contents).targets (lookup.linked contents).render := by
  have size : (word16 lookup.kind.number ++ word16 lookup.flags ++ word16 (.ofNat contents.length)).length +
      2 * contents.length + lookup.filteringBytes.length = lookup.headerSize contents.length := by
    rw [filteringBytes_length]
    rfl
  rw [linked, LinkedTable.index_targets, LinkedTable.index_render, size, assemble_eq, count16_of_le few]
  exact (Settles.advanceAll _ _).bind_last rfl

section Encode

variable {lookup : Lookup} {plans : List TablePlan}

theorem encode_of_plans (planned : Threaded (LookupSlot.Plans font names lookup.name) before lookup.slots plans after)
    (few : lookup.slots.length ≤ 65535) (reached : ∀ plan ∈ plans, InReach plan.targets) :
    (lookup.encode font names before).1 =
      if InReach (lookup.linked (plans.map fun plan => plan.whole.render)).targets then
        .ok (lookup.linked (plans.map fun plan => plan.whole.render)).render
      else .error (.write .offsetOverflow) := by
  have count : (plans.map fun plan => plan.whole.render).length ≤ 65535 := by
    rwa [List.length_map, ← planned.forall₂.length_eq]
  rw [encode_of_gives (gives_of_plans planned reached), settles_assemble count]
  split <;> rfl

theorem encode_of_far {index : Nat} {plan : TablePlan}
    (planned : Threaded (LookupSlot.Plans font names lookup.name) before lookup.slots plans after)
    (found : plans[index]? = some plan) (far : ¬InReach plan.targets)
    (earlier : ∀ other ∈ plans.take index, InReach other.targets) : ∃ slot, lookup.slots[index]? = some slot ∧
      (lookup.encode font names before).1 = .error (.inLookup lookup.name index (.write slot.subtable.overflow)) := by
  obtain ⟨slot, present, failed⟩ := encodeSlots_of_far planned found far earlier 0
  refine ⟨slot, present, ?_⟩
  rw [Nat.zero_add] at failed
  generalize encoding : encodeSlots font names lookup.name 0 lookup.slots before = result at failed
  obtain ⟨outcome, filled, after⟩ := result
  cases failed
  rw [encode, encoding]

/-- Bytes of a lookup are its layout and those of its subtables, with every block in reach. -/
theorem exists_plans_of_encode (written : (lookup.encode font names before).1 = .ok bytes) : ∃ plans after,
    Threaded (LookupSlot.Plans font names lookup.name) before lookup.slots plans after ∧
    (∀ plan ∈ plans, InReach plan.targets) ∧
    InReach (lookup.linked (plans.map fun plan => plan.whole.render)).targets ∧
    (lookup.linked (plans.map fun plan => plan.whole.render)).render = bytes := by
  have filled : (encodeSlots font names lookup.name 0 lookup.slots before).1 = .ok () := by
    rw [encode] at written
    split at written
    · cases written
    · rename_i encoding
      rw [encoding]
  obtain ⟨plans, after, planned, reached⟩ := exists_plans_of_encodeSlots filled
  rw [encode_of_gives (gives_of_plans planned reached), mapError_eq_ok_iff] at written
  have few := (exists_assemble_iff.mp ⟨bytes, written⟩).1
  exact ⟨plans, after, planned, reached, (settles_assemble few).eq_ok_iff.mp written⟩

end Encode

end Lookup

/-- A count and the links to as many lookups. -/
def lookupListTable (lookups : List (List UInt8)) : LinkedTable := .index (word16 (.ofNat lookups.length)) [] lookups

theorem settles_encodeLookupList {lookups : List (List UInt8)} (few : lookups.length ≤ 65535) :
    Settles (encodeLookupList lookups) (lookupListTable lookups).targets (lookupListTable lookups).render := by
  rw [lookupListTable, LinkedTable.index_targets, LinkedTable.index_render, List.append_nil, encodeLookupList,
    count16_of_le few]
  exact (Settles.advanceAll _ _).bind_last rfl

/-- Offsets are written in full or not at all. A subtable whose counts and values are in range and whose references
resolve is encoded to its layout if every block in it is in reach of its offset, and fails with an overflow if one is
not; only a cursive table of more than 16382 glyphs reports a bad value instead. A lookup fails at the first slot with
such a subtable, and if there is none its own offsets decide; lookup lists do the same. Nothing is ever encoded but
such layouts, with every block in reach: each offset in them is the position of its block. -/
theorem offsets_are_exact_or_overflow (font : Font) (names : LookupNames) :
    (∀ (owner : String) (subtable : Subtable) (before after : DeltaSets) (plan : TablePlan),
      subtable.Plans font names owner before plan after → (subtable.encode font names owner).run before =
        (if InReach plan.targets then .ok plan.whole.render else .error (.write subtable.overflow), after)) ∧
    (∀ (lookup : Lookup) (before after : DeltaSets) (plans : List TablePlan),
      Threaded (LookupSlot.Plans font names lookup.name) before lookup.slots plans after →
      (lookup.slots.length ≤ 65535 → (∀ plan ∈ plans, InReach plan.targets) →
        (lookup.encode font names before).1 =
          if InReach (lookup.linked (plans.map fun plan => plan.whole.render)).targets then
            .ok (lookup.linked (plans.map fun plan => plan.whole.render)).render
          else .error (.write .offsetOverflow)) ∧
      ∀ index plan, plans[index]? = some plan → ¬InReach plan.targets →
        (∀ other ∈ plans.take index, InReach other.targets) → ∃ slot, lookup.slots[index]? = some slot ∧
          (lookup.encode font names before).1 =
            .error (.inLookup lookup.name index (.write slot.subtable.overflow))) ∧
    (∀ (compiled : CompiledTables) (kind : TableKind), (compiled.lookups kind).length ≤ 65535 →
      compiled.lookupList kind = if InReach (lookupListTable (compiled.lookups kind)).targets then
        .ok (lookupListTable (compiled.lookups kind)).render else .error .offsetOverflow) ∧
    (∀ (owner : String) (subtable : Subtable) (before after : DeltaSets) (bytes : List UInt8),
      (subtable.encode font names owner).run before = (.ok bytes, after) → ∃ plan,
        subtable.Plans font names owner before plan after ∧ InReach plan.targets ∧ plan.whole.render = bytes) ∧
    (∀ (lookup : Lookup) (before : DeltaSets) (bytes : List UInt8),
      (lookup.encode font names before).1 = .ok bytes → ∃ plans after,
        Threaded (LookupSlot.Plans font names lookup.name) before lookup.slots plans after ∧
        (∀ plan ∈ plans, InReach plan.targets) ∧
        InReach (lookup.linked (plans.map fun plan => plan.whole.render)).targets ∧
        (lookup.linked (plans.map fun plan => plan.whole.render)).render = bytes) ∧
    (∀ (compiled : CompiledTables) (kind : TableKind) (bytes : List UInt8), compiled.lookupList kind = .ok bytes →
      InReach (lookupListTable (compiled.lookups kind)).targets ∧
        (lookupListTable (compiled.lookups kind)).render = bytes) ∧
    ∀ (table : LinkedTable) (front back : List HeaderPart) (block : Nat), InReach table.targets →
      table.header = front ++ .link block :: back → ∃ offset content,
        Stands table.render (front.map HeaderPart.size).sum (word16 offset) ∧
        offset.toNat = table.positionOf block ∧ table.blocks[block]? = some content ∧
        Stands table.render offset.toNat content := by
  refine ⟨?_, ?_, ?_, ?_, ?_, ?_, ?_⟩
  · intro owner subtable before after plan plans
    exact plans.run_encode
  · intro lookup before after plans planned
    exact ⟨Lookup.encode_of_plans planned, fun index plan found far earlier =>
      Lookup.encode_of_far planned found far earlier⟩
  · intro compiled kind few
    exact settles_encodeLookupList few
  · intro owner subtable before after bytes run
    exact Subtable.exists_plans_in_reach run
  · intro lookup before bytes written
    exact Lookup.exists_plans_of_encode written
  · intro compiled kind bytes written
    have few := (exists_encodeLookupList_iff.mp ⟨bytes, written⟩).1
    exact (settles_encodeLookupList few).eq_ok_iff.mp written
  · intro table front back block reached header
    exact table.stands_of_inReach reached header

/-- Two sequences, of which the first reaches beyond what an offset can. -/
def longSequences : MultipleSubstitution :=
  ⟨(∅ : Std.TreeMap GlyphId (List GlyphId)).insert 3 (List.replicate 32760 7) |>.insert 4 [7]⟩

def longLookup : Lookup where
  name := "spell"
  kind := .multipleSubstitution
  slots := [⟨.multiple longSequences, none⟩]

/-- The second sequence would start at 65540. -/
theorem offsets_are_exact_or_overflow_of_long : 65540 ∈ longSequences.plan.targets ∧
    Threaded (LookupSlot.Plans {} {} longLookup.name) (Font.deltaSets {}) longLookup.slots [longSequences.plan]
      (Font.deltaSets {}) ∧
    (longLookup.encode {} {} (Font.deltaSets {})).1 = .error (.inLookup "spell" 0 (.write .offsetOverflow)) := by
  obtain ⟨first, ordered, size⟩ : ∃ first : List GlyphId, longSequences.ordered = [first, [7]] ∧ first.length = 32760 :=
    ⟨_, rfl, List.length_replicate⟩
  have count : longSequences.sequences.keys.length = 2 := rfl
  have far : 65540 ∈ longSequences.plan.targets := by
    rw [MultipleSubstitution.plan, TablePlan.targets_of_whole, LinkedTable.counted_targets, ordered,
      Coverage.bytes_length, count]
    simp [DeltaSets.positions, MultipleSubstitution.sequenceBytes, word16_length, words16_length, size]
  have planned : Threaded (LookupSlot.Plans {} {} longLookup.name) (Font.deltaSets {}) longLookup.slots
      [longSequences.plan] (Font.deltaSets {}) := by
    refine .cons (.made (.multiple (by decide +kernel) ?_)) .nil
    rw [ordered]
    simp [size]
  have unreachable : ¬InReach longSequences.plan.targets := fun reached => absurd (reached _ far) (by decide)
  obtain ⟨_, lookups, _⟩ := offsets_are_exact_or_overflow {} {}
  obtain ⟨slot, present, failed⟩ := (lookups longLookup _ _ _ planned).2 0 _ rfl unreachable (by simp)
  cases present
  exact ⟨far, planned, failed⟩

namespace CursiveAttachment

theorem threaded_absent {font : Font} {table : CursiveAttachment}
    (absent : ∀ side glyph, table.anchorSpec? side glyph = none) (places : List (GlyphId × CursiveSide))
    (sets : DeltaSets) : Threaded (table.Computes font) sets places (places.map fun _ => none) sets := by
  induction places with
  | nil => exact .nil
  | cons place places ih =>
    refine .cons ?_ ih
    have base : table.base font place.2 place.1 = .ok none := by rw [base, absent]
    rw [Computes, anchor, base]
    rfl

/-- Glyphs without anchors, one more than the offset of their coverage allows. -/
def wideEntries : List (GlyphId × CursiveEnds) := (List.range 16383).map fun number => (.ofNat number, ⟨none, none⟩)

def wide : CursiveAttachment where
  name := "join"
  anchors := .ofList wideEntries compare

theorem wideEntries_distinct : wideEntries.Pairwise fun entry other => ¬compare entry.1 other.1 = .eq := by
  rw [wideEntries, List.pairwise_map]
  refine List.Pairwise.imp_of_mem ?_ List.pairwise_lt_range
  intro number other member otherMember less equal
  have same := congrArg UInt16.toNat (Std.LawfulEqCmp.eq_of_compare equal)
  rw [List.mem_range] at member otherMember
  simp only [UInt16.toNat_ofNat'] at same
  omega

theorem wide_absent (side : CursiveSide) (glyph : GlyphId) : wide.anchorSpec? side glyph = none := by
  by_cases inside : glyph.toNat < 16383
  · have listed : (glyph, ⟨none, none⟩) ∈ wideEntries :=
      List.mem_map.mpr ⟨glyph.toNat, List.mem_range.mpr inside, by rw [UInt16.ofNat_toNat]⟩
    have found : wide.anchors[glyph]? = some ⟨none, none⟩ :=
      Std.TreeMap.getElem?_ofList_of_mem Std.ReflCmp.compare_self wideEntries_distinct listed
    rw [anchorSpec?, found]
    cases side <;> rfl
  · have missing : wide.anchors[glyph]? = none := by
      refine Std.TreeMap.getElem?_ofList_of_contains_eq_false (Bool.eq_false_iff.mpr fun contained => inside ?_)
      obtain ⟨entry, listed, rfl⟩ := List.mem_map.mp (List.contains_iff_mem.mp contained)
      obtain ⟨number, member, rfl⟩ := List.mem_map.mp listed
      have few := List.mem_range.mp member
      rw [UInt16.toNat_ofNat']
      omega
    rw [anchorSpec?, missing]
    rfl

theorem far_coverage_is_bad_value : ∃ plan, 65538 ∈ plan.targets ∧
    (Subtable.cursive wide).Plans {} {} "join" (Font.deltaSets {}) plan (Font.deltaSets {}) ∧
    ((Subtable.cursive wide).encode {} {} "join").run (Font.deltaSets {}) =
      (.error (.write .badValue), Font.deltaSets {}) := by
  have size : wide.anchors.size = 16383 := by
    rw [wide, Std.TreeMap.size_ofList wideEntries_distinct, wideEntries, List.length_map, List.length_range]
  have plans : (Subtable.cursive wide).Plans {} {} "join" (Font.deltaSets {}) _ (Font.deltaSets {}) :=
    .cursive (by rw [size]; decide) (threaded_absent wide_absent (sides wide.anchors.keys) (Font.deltaSets {}))
  have far : 65538 ∈ (linked wide.anchors.keys ((sides wide.anchors.keys).map fun _ => none)).targets := by
    rw [linked_targets (by rw [List.length_map, sides_length]), Std.TreeMap.length_keys, size]
    exact List.mem_cons_self
  rw [← TablePlan.targets_of_whole] at far
  refine ⟨_, far, plans, ?_⟩
  rw [plans.run_encode, if_neg fun reached => absurd (reached 65538 far) (by decide), Subtable.overflow, size]
  rfl

end CursiveAttachment

end Kashida
