import Kashida.Lookup.Basic
import Kashida.Proofs.Lookup.Subtables

/-! What encoding a lookup does to its slots, and where a reader finds their bytes. -/
namespace Kashida

/-- The bytes were made from the subtable, with these names, at some time before the delta sets had grown to these. -/
def Subtable.Encodes (font : Font) (names : LookupNames) (owner : String) (subtable : Subtable) (sets : DeltaSets)
    (bytes : List UInt8) : Prop :=
  ∃ before after, before.Valid ∧ (subtable.encode font names owner).run before = (.ok bytes, after) ∧
    after.Extends sets

theorem Subtable.Encodes.mono {before after : DeltaSets} (made : Encodes font names owner subtable before bytes)
    (grown : before.Extends after) : Encodes font names owner subtable after bytes := by
  obtain ⟨first, second, valid, run, extended⟩ := made
  exact ⟨first, second, valid, run, extended.trans grown⟩

/-- A slot before and after an encoding: it stays, or gets its bytes. -/
inductive LookupSlot.Encoded (font : Font) (names : LookupNames) (owner : String) (sets : DeltaSets) :
    LookupSlot → LookupSlot → Prop
  | kept : Encoded font names owner sets slot slot
  | made {subtable : Subtable} (made : subtable.Encodes font names owner sets bytes) :
      Encoded font names owner sets ⟨subtable, none⟩ ⟨subtable, some bytes⟩

theorem LookupSlot.Encoded.mono {before after : DeltaSets} (encoded : Encoded font names owner before slot next)
    (grown : before.Extends after) : Encoded font names owner after slot next := by
  cases encoded with
  | kept => exact .kept
  | made made => exact .made (made.mono grown)

namespace Lookup

theorem encodeSlots_spec {slots : List LookupSlot} (valid : sets.Valid)
    (step : encodeSlots font names owner index slots sets = (outcome, next, after)) :
    after.Valid ∧ sets.Extends after ∧ List.Forall₂ (LookupSlot.Encoded font names owner after) slots next ∧
      (outcome = .ok () → ∀ slot ∈ next, slot.encoded.isSome) := by
  induction slots generalizing index sets outcome next with
  | nil =>
    cases step
    exact ⟨valid, .refl _, .nil, fun _ slot member => by cases member⟩
  | cons slot slots ih =>
    obtain ⟨subtable, encoded⟩ := slot
    cases encoded with
    | some bytes =>
      unfold encodeSlots at step
      generalize rest : encodeSlots font names owner (index + 1) slots sets = final at step
      obtain ⟨result, others, last⟩ := final
      cases step
      obtain ⟨validNext, grown, each, full⟩ := ih valid rest
      refine ⟨validNext, grown, .cons .kept each, ?_⟩
      intro done slot member
      rcases List.mem_cons.mp member with rfl | later
      · rfl
      · exact full done slot later
    | none =>
      unfold encodeSlots at step
      obtain ⟨validMiddle, grown, _⟩ := (subtable.encode_composed font names owner).grows sets valid
      split at step
      · rename_i error middle run
        cases step
        rw [run] at validMiddle grown
        refine ⟨validMiddle, grown, .cons .kept ?_, fun done => by cases done⟩
        exact List.forall₂_same.mpr fun slot _ => .kept
      · rename_i bytes middle run
        rw [run] at validMiddle grown
        generalize rest : encodeSlots font names owner (index + 1) slots middle = final at step
        obtain ⟨result, others, last⟩ := final
        cases step
        obtain ⟨validNext, grownFurther, each, full⟩ := ih validMiddle rest
        refine ⟨validNext, grown.trans grownFurther, .cons (.made ⟨sets, middle, valid, run, grownFurther⟩) each, ?_⟩
        intro done slot member
        rcases List.mem_cons.mp member with rfl | later
        · rfl
        · exact full done slot later

/-- A lookup before and after an encoding: only its slots may have got bytes. -/
def Reencoded (font : Font) (names : LookupNames) (sets : DeltaSets) (lookup next : Lookup) : Prop :=
  ∃ slots, next = { lookup with slots } ∧
    List.Forall₂ (LookupSlot.Encoded font names lookup.name sets) lookup.slots slots

/-- All slots have bytes, and the lookup is put together from them. -/
def Settled (lookup : Lookup) (bytes : List UInt8) : Prop :=
  ∃ subtables : List (List UInt8), lookup.slots.map LookupSlot.encoded = subtables.map some ∧
    lookup.assemble subtables = .ok bytes

/-- Encoding a lookup changes nothing but the bytes of its slots, and settles it where it succeeds. -/
theorem encode_spec {lookup : Lookup} (valid : sets.Valid)
    (step : lookup.encode font names sets = (outcome, next, after)) :
    after.Valid ∧ sets.Extends after ∧ Reencoded font names after lookup next ∧
      ∀ bytes, outcome = .ok bytes → next.Settled bytes := by
  unfold encode at step
  split at step
  · rename_i encoding
    cases step
    obtain ⟨validNext, grown, each, _⟩ := encodeSlots_spec valid encoding
    exact ⟨validNext, grown, ⟨_, rfl, each⟩, fun bytes same => by cases same⟩
  · rename_i slots last encoding
    cases step
    obtain ⟨validNext, grown, each, full⟩ := encodeSlots_spec valid encoding
    refine ⟨validNext, grown, ⟨_, rfl, each⟩, ?_⟩
    intro bytes assembled
    refine ⟨_, ?_, mapError_eq_ok_iff.mp assembled⟩
    rw [List.map_map]
    refine List.map_congr_left ?_
    intro slot member
    obtain ⟨content, same⟩ := Option.isSome_iff_exists.mp (full rfl slot member)
    simp [same]

/-- The offsets of the subtables of a lookup, behind its kind and flags. -/
def readOffsets : ReadM EndOfData (List UInt16) := do
  let _kind ← Cursor.word16
  let _flags ← Cursor.word16
  let count ← Cursor.word16
  Cursor.words16 count.toNat

/-- The scope of a subtable in the bytes of a lookup. -/
def subtableScope (bytes : List UInt8) (index : Nat) : Except ParseError (Option Scope) := do
  let (offsets, _) ← (Scope.ofBytes bytes).readAt 0 (Cursor.step readOffsets)
  return offsets[index]?.map fun offset => (Scope.ofBytes bytes).offset offset.toNat

theorem assemble_parts {lookup : Lookup} {subtables : List (List UInt8)}
    (assembled : lookup.assemble subtables = .ok bytes) : ∃ filtering count offsets last,
      count16 subtables.length = .ok count ∧
      OffsetCounter.advanceAll ⟨6 + 2 * subtables.length + filtering.length⟩ (subtables.map List.length) =
        .ok (offsets, last) ∧
      word16 lookup.kind.number ++ word16 lookup.flags ++ word16 count ++ words16 offsets ++ filtering ++
        subtables.flatten = bytes := by
  simp only [assemble, bind_eq_ok_iff, pure_eq_ok_iff] at assembled
  obtain ⟨count, counted, ⟨offsets, last⟩, advanced, whole⟩ := assembled
  exact ⟨_, count, offsets, last, counted, advanced, whole⟩

/-- Each subtable stands where its offset says. -/
theorem subtableScope_assemble {lookup : Lookup} {subtables : List (List UInt8)}
    (assembled : lookup.assemble subtables = .ok bytes) (found : subtables[index]? = some subtable) :
    ∃ origin back, subtableScope bytes index = .ok (some ⟨origin, subtable ++ back⟩) := by
  -- Whether there is a filtering set does not matter to a reader of the offsets.
  obtain ⟨filtering, count, offsets, last, counted, advanced, whole⟩ := assemble_parts assembled
  obtain ⟨placed, _⟩ := OffsetCounter.advanceAll_eq_ok_iff.mp advanced
  have offsetCount : offsets.length = subtables.length := by
    rw [← placed.length_eq, positions_length, List.length_map]
  obtain ⟨header, isHeader⟩ : ∃ header, header =
      word16 lookup.kind.number ++ (word16 lookup.flags ++ (word16 count ++ words16 offsets)) := ⟨_, rfl⟩
  have frontLength : (header ++ filtering).length = 6 + 2 * subtables.length + filtering.length := by
    simp only [isHeader, List.length_append, word16_length, words16_length, offsetCount]
    omega
  have parts : bytes = header ++ filtering ++ subtables.flatten ++ [] := by
    simp only [← whole, isHeader, List.append_assoc, List.append_nil]
  have headerReads : Reads readOffsets header offsets := by
    rw [isHeader]
    refine (Reads.word16 _).bind ((Reads.word16 _).bind ((Reads.word16 _).bind ?_))
    rw [(count16_eq_ok_iff.mp counted).2, ← offsetCount]
    exact Reads.words16 offsets
  have headerStands : Stands bytes 0 header := ⟨[], _, by rw [parts, List.append_assoc, List.append_assoc]; rfl, rfl⟩
  have standing := stands_blocks (header ++ filtering) [] subtables
  rw [← parts, frontLength] at standing
  obtain ⟨position, atPosition, stands⟩ := exists_getElem?_of_forall₂ standing.flip found
  obtain ⟨offset, atOffset, fits⟩ := exists_getElem?_of_forall₂ placed atPosition
  rw [← (offset16_eq_ok_iff.mp fits).2] at stands
  obtain ⟨back, scope⟩ := Stands.offset (.ofBytes bytes) stands
  refine ⟨(Scope.ofBytes bytes).base + offset.toNat, back, ?_⟩
  simp only [subtableScope, bind_eq_ok_iff, pure_eq_ok_iff]
  exact ⟨_, Stands.readAt (.ofBytes bytes) headerStands headerReads.step, by rw [atOffset, ← scope]; rfl⟩

/-- The bytes of each slot stand where a reader of the lookup looks for them. -/
theorem Settled.scope {lookup : Lookup} {slot : LookupSlot} (settled : lookup.Settled bytes)
    (found : lookup.slots[index]? = some slot) : ∃ content origin back, slot.encoded = some content ∧
      subtableScope bytes index = .ok (some ⟨origin, content ++ back⟩) := by
  obtain ⟨subtables, all, assembled⟩ := settled
  have here : (lookup.slots.map LookupSlot.encoded)[index]? = some slot.encoded := by
    rw [List.getElem?_map, found, Option.map_some]
  rw [all, List.getElem?_map, Option.map_eq_some_iff] at here
  obtain ⟨content, atIndex, same⟩ := here
  obtain ⟨origin, back, scope⟩ := subtableScope_assemble assembled atIndex
  exact ⟨content, origin, back, same.symm, scope⟩

end Lookup

end Kashida
