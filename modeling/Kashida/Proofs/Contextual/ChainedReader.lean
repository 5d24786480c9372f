import Kashida.Contextual.Chained
import Kashida.Proofs.Tables

/-! Chaining contexts read back. The reader follows the published layout: a count and the offsets of as many coverages
for each of backtrack, input and lookahead, then the actions. -/
namespace Kashida

/-- A chaining context as its bytes describe it: where its header ends, the coverages of each part in stored order, and
the position and lookup number of each action. -/
structure StoredContext where
  headerEnd : Nat
  backtrack : List (Located Coverage)
  input : List (Located Coverage)
  lookahead : List (Located Coverage)
  actions : List (UInt16 × UInt16)
deriving DecidableEq

namespace StoredContext

structure Header where
  backtrack : List UInt16
  input : List UInt16
  lookahead : List UInt16
  actions : List (UInt16 × UInt16)

def readOffsets : ReadM EndOfData (List UInt16) := do
  let count ← Cursor.word16
  Cursor.words16 count.toNat

def readAction : ReadM EndOfData (UInt16 × UInt16) := do
  let position ← Cursor.word16
  let lookup ← Cursor.word16
  return (position, lookup)

def readHeader : ReadM ParseError Header := do
  let format ← Cursor.step Cursor.word16
  if format = 3 then
    let backtrack ← Cursor.step readOffsets
    let input ← Cursor.step readOffsets
    let lookahead ← Cursor.step readOffsets
    let count ← Cursor.step Cursor.word16
    let actions ← Cursor.step (Cursor.repeated readAction count.toNat)
    return ⟨backtrack, input, lookahead, actions⟩
  else throw .badVersion

def read (scope : Scope) : Except ParseError StoredContext := do
  let (header, headerEnd) ← scope.readAt 0 readHeader
  let backtrack ← header.backtrack.mapM (scope.locate Coverage.read)
  let input ← header.input.mapM (scope.locate Coverage.read)
  let lookahead ← header.lookahead.mapM (scope.locate Coverage.read)
  return ⟨headerEnd, backtrack, input, lookahead, header.actions⟩

end StoredContext

/-- The number of a name used inside a lookup: that of the scoped name, else that of the name itself. -/
def LookupNames.StandsFor (names : LookupNames) (owner name : String) (number : UInt16) : Prop :=
  names.number? (owner ++ "." ++ name) = some number ∨
    names.number? (owner ++ "." ++ name) = none ∧ names.number? name = some number

theorem LookupNames.resolve_eq_ok_iff {names : LookupNames} :
    names.resolve owner name = .ok number ↔ names.StandsFor owner name number := by
  unfold resolve StandsFor
  split
  · rename_i found
    simp [found]
  · rename_i absent
    split
    · rename_i found
      simp [absent, found]
    · rename_i unknown
      simp [absent, unknown]

namespace ChainedContext

/-- The glyphs at each position in stored order: of the backtrack, the position closest to the input comes first. -/
def sets (context : ChainedContext) : List GlyphSet := context.backtrack.reverse ++ context.input ++ context.lookahead

/-- Where a coverage starts: behind the header and the coverages before it. -/
def coverageAt (context : ChainedContext) (index : Nat) : Nat :=
  10 + 2 * context.sets.length + 4 * context.actions.length +
    ((context.sets.take index).map fun set => 4 + 2 * set.toList.length).sum

/-- The bytes of a resolved action. -/
def actionBytes (action : UInt16 × UInt16) : List UInt8 := word16 action.1 ++ word16 action.2

theorem reads_action (action : UInt16 × UInt16) : Reads StoredContext.readAction (actionBytes action) action :=
  (Reads.word16 action.1).bind ((Reads.word16 action.2).bind_last (Reads.pure _))

theorem resolveAction_eq_ok_iff {context : ChainedContext} :
    context.resolveAction names owner action = .ok result ↔ action.position.toNat < context.input.length ∧
      result.1 = action.position ∧ names.resolve owner action.lookup = .ok result.2 := by
  unfold resolveAction
  split
  · rename_i outside
    simp [Nat.not_lt.mpr outside, throw, throwThe, MonadExceptOf.throw, bind, Except.bind]
  · rename_i inside
    simp only [bind_eq_ok_iff, pure_eq_ok_iff, Nat.not_le.mp inside, true_and]
    show (∃ number, (names.resolve owner action.lookup).mapError CompileError.resolve = .ok number ∧ _) ↔ _
    simp only [mapError_eq_ok_iff]
    constructor
    · rintro ⟨number, found, rfl⟩
      exact ⟨rfl, found⟩
    · rintro ⟨place, found⟩
      exact ⟨result.2, found, by rw [← place]⟩

theorem exists_offsetBlock_iff {offsets : List UInt16} :
    (∃ block, offsetBlock offsets = .ok block) ↔ offsets.length ≤ 65535 := by
  simp only [offsetBlock, bind_eq_ok_iff, pure_eq_ok_iff]
  rw [← exists_count16_iff]
  constructor
  · rintro ⟨_, count, counted, _⟩
    exact ⟨count, counted⟩
  · rintro ⟨count, counted⟩
    exact ⟨_, count, counted, rfl⟩

theorem offsetBlock_reads {offsets : List UInt16} (written : offsetBlock offsets = .ok block) :
    block.length = 2 + 2 * offsets.length ∧ Reads StoredContext.readOffsets block offsets := by
  simp only [offsetBlock, bind_eq_ok_iff, pure_eq_ok_iff] at written
  obtain ⟨count, counted, rfl⟩ := written
  have number := (count16_eq_ok_iff.mp counted).2
  constructor
  · simp only [List.length_append, word16_length, words16_length]
    omega
  · refine (Reads.word16 count).bind ?_
    rw [number]
    exact Reads.words16 offsets

/-- The parts of a table that was written. -/
theorem layout_eq_ok_iff {context : ChainedContext} {actions : List (UInt16 × UInt16)} :
    context.layout actions = .ok bytes ↔ ∃ offsets backtrack input lookahead count blocks,
      List.Forall₂ (fun position offset => offset16 position = .ok offset)
        (DeltaSets.positions (10 + 2 * context.sets.length + 4 * actions.length)
          (context.sets.map fun set => 4 + 2 * set.toList.length)) offsets ∧
      offsetBlock (offsets.take context.backtrack.length) = .ok backtrack ∧
      offsetBlock ((offsets.drop context.backtrack.length).take context.input.length) = .ok input ∧
      offsetBlock ((offsets.drop context.backtrack.length).drop context.input.length) = .ok lookahead ∧
      count16 actions.length = .ok count ∧
      List.Forall₂ (fun set block => (Coverage.ofSet set).encode = .ok block) context.sets blocks ∧
      word16 3 ++ backtrack ++ input ++ lookahead ++ word16 count ++ actions.flatMap actionBytes ++ blocks.flatten =
        bytes := by
  have coverages : context.coverages = context.sets.map Coverage.ofSet := rfl
  have sizes : (context.sets.map Coverage.ofSet).map Coverage.size =
      context.sets.map fun set => 4 + 2 * set.toList.length := List.map_map
  simp only [layout, coverages, sizes, List.length_map, bind_eq_ok_iff, pure_eq_ok_iff, mapM_eq_ok_iff,
    List.forall₂_map_left_iff, Prod.exists, OffsetCounter.advanceAll_eq_ok_iff]
  constructor
  · rintro ⟨offsets, _, ⟨placed, _⟩, backtrack, isBacktrack, input, isInput, lookahead, isLookahead, count, counted,
      blocks, covered, whole⟩
    exact ⟨offsets, backtrack, input, lookahead, count, blocks, placed, isBacktrack, isInput, isLookahead, counted,
      covered, whole⟩
  · rintro ⟨offsets, backtrack, input, lookahead, count, blocks, placed, isBacktrack, isInput, isLookahead, counted,
      covered, whole⟩
    exact ⟨offsets, _, ⟨placed, rfl⟩, backtrack, isBacktrack, input, isInput, lookahead, isLookahead, count, counted,
      blocks, covered, whole⟩

theorem exists_layout_iff {context : ChainedContext} {actions : List (UInt16 × UInt16)}
    (sameCount : actions.length = context.actions.length) : (∃ bytes, context.layout actions = .ok bytes) ↔
      (∀ index < context.sets.length, context.coverageAt index ≤ 65535) ∧
      (∀ set ∈ context.sets, set.toList.length ≤ 65535) ∧ context.actions.length ≤ 65535 := by
  have offsetsFit : (∃ offsets, List.Forall₂ (fun position offset => offset16 position = .ok offset)
      (DeltaSets.positions (10 + 2 * context.sets.length + 4 * actions.length)
        (context.sets.map fun set => 4 + 2 * set.toList.length)) offsets) ↔
      ∀ index < context.sets.length, context.coverageAt index ≤ 65535 := by
    simp only [exists_offsets_iff, List.length_map, ← List.map_take, sameCount, coverageAt]
  have setsFit : (∃ blocks, List.Forall₂ (fun set block => (Coverage.ofSet set).encode = .ok block) context.sets
      blocks) ↔ ∀ set ∈ context.sets, set.toList.length ≤ 65535 := by
    simp only [exists_forall₂_iff, Coverage.exists_encode_ofSet_iff]
  have countFits : (∃ count, count16 actions.length = .ok count) ↔ context.actions.length ≤ 65535 := by
    rw [exists_count16_iff, sameCount]
  rw [← offsetsFit, ← setsFit, ← countFits]
  simp only [layout_eq_ok_iff]
  constructor
  · rintro ⟨_, offsets, _, _, _, count, blocks, placed, _, _, _, counted, covered, _⟩
    exact ⟨⟨offsets, placed⟩, ⟨blocks, covered⟩, count, counted⟩
  · rintro ⟨⟨offsets, placed⟩, ⟨blocks, covered⟩, count, counted⟩
    have offsetCount : offsets.length = context.sets.length := by
      rw [← placed.length_eq, positions_length, List.length_map]
    -- The first coverage starts behind all offsets, so these are not too many to count.
    have few : offsets.length ≤ 65535 := by
      rcases Nat.eq_zero_or_pos context.sets.length with none | some
      · omega
      · have first := offsetsFit.mp ⟨offsets, placed⟩ 0 some
        simp only [coverageAt] at first
        omega
    have block : ∀ part : List UInt16, part.Sublist offsets → ∃ bytes, offsetBlock part = .ok bytes :=
      fun part within => exists_offsetBlock_iff.mpr (Nat.le_trans within.length_le few)
    have rest := List.drop_sublist context.backtrack.length offsets
    obtain ⟨backtrack, isBacktrack⟩ := block _ (List.take_sublist context.backtrack.length offsets)
    obtain ⟨input, isInput⟩ := block _ ((List.take_sublist context.input.length _).trans rest)
    obtain ⟨lookahead, isLookahead⟩ := block _ ((List.drop_sublist context.input.length _).trans rest)
    exact ⟨_, offsets, backtrack, input, lookahead, count, blocks, placed, isBacktrack, isInput, isLookahead, counted,
      covered, rfl⟩

/-- A table is a header that reads back and, at the offsets of the header, the coverages. -/
theorem exists_header_of_layout {context : ChainedContext} {actions : List (UInt16 × UInt16)}
    (written : context.layout actions = .ok bytes) : ∃ header offsets blocks, bytes = header ++ blocks.flatten ∧
      Reads StoredContext.readHeader header ⟨offsets.take context.backtrack.length,
        (offsets.drop context.backtrack.length).take context.input.length,
        (offsets.drop context.backtrack.length).drop context.input.length, actions⟩ ∧
      List.Forall₂ (fun position offset => offset16 position = .ok offset)
        (DeltaSets.positions header.length (blocks.map List.length)) offsets ∧
      List.Forall₂ (Reads Coverage.read) blocks (context.sets.map Coverage.ofSet) := by
  obtain ⟨offsets, backtrack, input, lookahead, count, blocks, placed, isBacktrack, isInput, isLookahead, counted,
    covered, whole⟩ := layout_eq_ok_iff.mp written
  obtain ⟨backtrackLength, backtrackReads⟩ := offsetBlock_reads isBacktrack
  obtain ⟨inputLength, inputReads⟩ := offsetBlock_reads isInput
  obtain ⟨lookaheadLength, lookaheadReads⟩ := offsetBlock_reads isLookahead
  refine ⟨word16 3 ++ (backtrack ++ (input ++ (lookahead ++ (word16 count ++ actions.flatMap actionBytes)))), offsets,
    blocks, by simp only [← whole, List.append_assoc], ?_, ?_, ?_⟩
  · refine (Reads.word16 3).step.bind (backtrackReads.step.bind (inputReads.step.bind (lookaheadReads.step.bind
      ((Reads.word16 count).step.bind ?_))))
    rw [(count16_eq_ok_iff.mp counted).2]
    exact (Reads.repeated_id fun action _ => reads_action action).step.bind_last (Reads.pure _)
  · have sizes : (context.sets.map fun set => 4 + 2 * set.toList.length) = blocks.map List.length := by
      rw [map_eq_map_iff]
      exact covered.imp fun set block encoded => (Coverage.encode_reads encoded).1.symm
    have offsetCount : offsets.length = context.sets.length := by
      rw [← placed.length_eq, positions_length, List.length_map]
    have actionsLength : (actions.flatMap actionBytes).length = actions.length * 4 :=
      length_flatMap_of_forall 4 fun _ _ => rfl
    rw [sizes] at placed
    convert placed using 2
    simp only [List.length_append, word16_length, backtrackLength, inputLength, lookaheadLength, actionsLength,
      List.length_take, List.length_drop, offsetCount]
    omega
  · rw [List.forall₂_map_right_iff]
    exact (covered.imp fun set block encoded => (Coverage.encode_reads encoded).2).flip

/-- A stored context has these actions, and the coverages of a context one behind the other up to `stop`. -/
structure Stores (context : ChainedContext) (actions : List (UInt16 × UInt16)) (stop : Nat) (stored : StoredContext) :
    Prop where
  backtrack : stored.backtrack.map (·.table.glyphs) = (context.backtrack.map GlyphSet.toList).reverse
  input : stored.input.map (·.table.glyphs) = context.input.map GlyphSet.toList
  lookahead : stored.lookahead.map (·.table.glyphs) = context.lookahead.map GlyphSet.toList
  actions : stored.actions = actions
  contiguous : Contiguous stored.headerEnd (stored.backtrack ++ stored.input ++ stored.lookahead) stop

/-- The table reads back, whatever stands behind it. -/
theorem read_layout {context : ChainedContext} {actions : List (UInt16 × UInt16)}
    (written : context.layout actions = .ok bytes) (origin : Nat) (back : List UInt8) :
    ∃ stored, StoredContext.read ⟨origin, bytes ++ back⟩ = .ok stored ∧
      context.Stores actions (origin + bytes.length) stored := by
  obtain ⟨header, offsets, blocks, parts, headerReads, placed, blocksRead⟩ := exists_header_of_layout written
  obtain ⟨located, each, tables, contiguous⟩ := locate_blocks origin header back placed blocksRead
  rw [← parts] at each contiguous
  have glyphs : located.map (·.table.glyphs) = (context.backtrack.map GlyphSet.toList).reverse ++
      (context.input.map GlyphSet.toList ++ context.lookahead.map GlyphSet.toList) := by
    have all : located.map (·.table.glyphs) = (located.map Located.table).map Coverage.glyphs := List.map_map.symm
    rw [all, tables, List.map_map, sets, List.append_assoc, List.map_append, List.map_append, List.map_reverse]
    rfl
  have behindBacktrack : (located.map (·.table.glyphs)).drop context.backtrack.length =
      context.input.map GlyphSet.toList ++ context.lookahead.map GlyphSet.toList := by
    rw [glyphs, List.drop_left' (by simp)]
  have headerStands : Stands (bytes ++ back) 0 header := ⟨[], _, by rw [parts, List.append_assoc]; rfl, rfl⟩
  have headerRead := Stands.readAt ⟨origin, bytes ++ back⟩ headerStands headerReads
  refine ⟨⟨origin + header.length, located.take context.backtrack.length,
    (located.drop context.backtrack.length).take context.input.length,
    (located.drop context.backtrack.length).drop context.input.length, actions⟩, ?_, ?_⟩
  · simp only [StoredContext.read, bind_eq_ok_iff, pure_eq_ok_iff, mapM_eq_ok_iff]
    exact ⟨_, headerRead, _, List.forall₂_take _ each, _, List.forall₂_take _ (List.forall₂_drop _ each), _,
      List.forall₂_drop _ (List.forall₂_drop _ each), rfl⟩
  · constructor
    · rw [List.map_take, glyphs, List.take_left' (by simp)]
    · rw [List.map_take, List.map_drop, behindBacktrack, List.take_left' (by simp)]
    · rw [List.map_drop, List.map_drop, behindBacktrack, List.drop_left' (by simp)]
    · rfl
    · rwa [List.append_assoc, List.take_append_drop, List.take_append_drop]

theorem exists_resolved_iff {context : ChainedContext} :
    (∃ actions, context.actions.mapM (context.resolveAction names owner) = .ok actions) ↔
      (∀ action ∈ context.actions, action.position.toNat < context.input.length) ∧
      ∀ action ∈ context.actions, ∃ number, names.StandsFor owner action.lookup number := by
  simp only [mapM_eq_ok_iff, exists_forall₂_iff, resolveAction_eq_ok_iff, LookupNames.resolve_eq_ok_iff]
  constructor
  · intro each
    constructor
    · intro action member
      obtain ⟨_, inside, _⟩ := each action member
      exact inside
    · intro action member
      obtain ⟨⟨_, number⟩, _, _, stands⟩ := each action member
      exact ⟨number, stands⟩
  · rintro ⟨inside, stand⟩ action member
    obtain ⟨number, stands⟩ := stand action member
    exact ⟨(action.position, number), inside action member, rfl, stands⟩

theorem encode_eq_ok_iff {context : ChainedContext} : context.encode names owner = .ok bytes ↔
    ∃ actions, context.actions.mapM (context.resolveAction names owner) = .ok actions ∧
      context.layout actions = .ok bytes := by
  rw [encode, bind_eq_ok_iff]
  exact exists_congr fun actions => and_congr_right fun _ => mapError_eq_ok_iff

/-- Each action is at its position and invokes the lookup that its name stands for. -/
def Invokes (names : LookupNames) (owner : String) (context : ChainedContext) (actions : List (UInt16 × UInt16)) :
    Prop :=
  List.Forall₂ (fun action result => result.1 = action.position ∧ names.StandsFor owner action.lookup result.2)
    context.actions actions

theorem invokes_of_resolved {context : ChainedContext} {actions : List (UInt16 × UInt16)}
    (resolved : context.actions.mapM (context.resolveAction names owner) = .ok actions) :
    context.Invokes names owner actions := by
  refine (mapM_eq_ok_iff.mp resolved).imp ?_
  intro action result resolved
  obtain ⟨_, position, found⟩ := resolveAction_eq_ok_iff.mp resolved
  exact ⟨position, LookupNames.resolve_eq_ok_iff.mp found⟩

/-- Where the bytes of a context stand, a reader finds the context, whatever stands behind it. -/
theorem read_encode {context : ChainedContext} (written : context.encode names owner = .ok bytes) (origin : Nat)
    (back : List UInt8) : ∃ stored actions, StoredContext.read ⟨origin, bytes ++ back⟩ = .ok stored ∧
      context.Stores actions (origin + bytes.length) stored ∧ context.Invokes names owner actions := by
  obtain ⟨actions, resolved, laid⟩ := encode_eq_ok_iff.mp written
  obtain ⟨stored, isRead, stores⟩ := read_layout laid origin back
  exact ⟨stored, actions, isRead, stores, invokes_of_resolved resolved⟩

end ChainedContext

/-- A context is encoded exactly if its actions are inside the input, their names stand for lookups, its coverages start
within reach of 16-bit offsets and nothing is too long to count. Its bytes then read back as the context: the coverages
lie one behind the other from the header to the end, and the actions have the numbers of their names. -/
theorem ChainedContext.encoded_context_reads_back (names : LookupNames) (owner : String) (context : ChainedContext) :
    ((∃ bytes, context.encode names owner = .ok bytes) ↔
      (∀ action ∈ context.actions, action.position.toNat < context.input.length) ∧
      (∀ action ∈ context.actions, ∃ number, names.StandsFor owner action.lookup number) ∧
      (∀ index < context.sets.length, context.coverageAt index ≤ 65535) ∧
      (∀ set ∈ context.sets, set.toList.length ≤ 65535) ∧ context.actions.length ≤ 65535) ∧
    ∀ bytes, context.encode names owner = .ok bytes → ∃ stored, StoredContext.read (.ofBytes bytes) = .ok stored ∧
      stored.backtrack.map (·.table.glyphs) = (context.backtrack.map GlyphSet.toList).reverse ∧
      stored.input.map (·.table.glyphs) = context.input.map GlyphSet.toList ∧
      stored.lookahead.map (·.table.glyphs) = context.lookahead.map GlyphSet.toList ∧
      context.Invokes names owner stored.actions ∧
      Contiguous stored.headerEnd (stored.backtrack ++ stored.input ++ stored.lookahead) bytes.length := by
  constructor
  · rw [← and_assoc, ← exists_resolved_iff]
    simp only [encode_eq_ok_iff]
    constructor
    · rintro ⟨bytes, actions, resolved, laid⟩
      have sameCount := (invokes_of_resolved resolved).length_eq.symm
      exact ⟨⟨actions, resolved⟩, (exists_layout_iff sameCount).mp ⟨bytes, laid⟩⟩
    · rintro ⟨⟨actions, resolved⟩, fits⟩
      have sameCount := (invokes_of_resolved resolved).length_eq.symm
      obtain ⟨bytes, laid⟩ := (exists_layout_iff sameCount).mpr fits
      exact ⟨bytes, actions, resolved, laid⟩
  · intro bytes written
    obtain ⟨stored, actions, isRead, stores, invokes⟩ := read_encode written 0 []
    rw [List.append_nil] at isRead
    refine ⟨stored, isRead, stores.backtrack, stores.input, stores.lookahead, stores.actions ▸ invokes, ?_⟩
    simpa using stores.contiguous

end Kashida
