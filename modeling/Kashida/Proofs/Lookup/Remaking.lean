import Kashida.Proofs.Contextual.ChainedReader
import Kashida.Proofs.Lookup.Encoding
import Kashida.Proofs.Lookup.Names

/-! Bytes made a second time. Without variable anchors they depend on the subtable alone and, in a context, on the
numbers that its names resolve to; these can change, but not how many bytes there are. -/
namespace Kashida

theorem word16_injective : Function.Injective word16 := by
  intro x y same
  have read := Reads.word16 x 0 [] []
  rw [same, Reads.word16 y 0 [] []] at read
  injection read with values
  exact (Except.ok.inj values).symm

namespace ChainedContext

theorem actionBytes_injective : Function.Injective actionBytes := by
  rintro ⟨position, lookup⟩ ⟨otherPosition, otherLookup⟩ same
  obtain ⟨positions, lookups⟩ := List.append_inj same rfl
  cases word16_injective positions
  cases word16_injective lookups
  rfl

/-- As many actions stand at the same place, between the same bytes. -/
theorem layout_parts {context : ChainedContext} {actions : List (UInt16 × UInt16)}
    (written : context.layout actions = .ok bytes) : ∃ front back, ∀ others : List (UInt16 × UInt16),
      others.length = actions.length → context.layout others = .ok (front ++ others.flatMap actionBytes ++ back) := by
  simp only [layout, bind_eq_ok_iff, pure_eq_ok_iff] at written
  obtain ⟨placed, isPlaced, backtrack, isBacktrack, input, isInput, lookahead, isLookahead, count, counted,
    coverages, covered, _⟩ := written
  refine ⟨word16 3 ++ backtrack ++ input ++ lookahead ++ word16 count, coverages.flatten, ?_⟩
  intro others sameCount
  simp only [layout, sameCount, bind_eq_ok_iff, pure_eq_ok_iff]
  exact ⟨placed, isPlaced, backtrack, isBacktrack, input, isInput, lookahead, isLookahead, count, counted,
    coverages, covered, rfl⟩

theorem layout_congr {context : ChainedContext} {actions others : List (UInt16 × UInt16)}
    (written : context.layout actions = .ok bytes) (sameCount : others.length = actions.length) :
    ∃ next, context.layout others = .ok next ∧ next.length = bytes.length ∧ (next = bytes ↔ others = actions) := by
  obtain ⟨front, back, parts⟩ := layout_parts written
  have whole := parts actions rfl
  rw [written, Except.ok.injEq] at whole
  have lengths : (others.map actionBytes).map List.length = (actions.map actionBytes).map List.length := by
    simp only [List.map_map, Function.comp_def, actionBytes, List.length_append, word16_length, List.map_const',
      sameCount]
  refine ⟨_, parts others sameCount, ?_, ?_⟩
  · simp only [whole, List.length_append, List.flatMap_def, List.length_flatten, lengths]
  · rw [whole, List.append_cancel_right_eq, List.append_cancel_left_eq, List.flatMap_def, List.flatMap_def]
    constructor
    · intro same
      exact List.map_injective_iff.mpr actionBytes_injective (List.eq_iff_flatten_eq.mpr ⟨same, lengths⟩)
    · rintro rfl
      rfl

variable {names later : LookupNames}

/-- With more names a context still encodes, to the same bytes unless one of its names is shadowed. -/
theorem encode_grown {context : ChainedContext} (lists : names.Lists listed) (grown : later.Lists (listed ++ more))
    (written : context.encode names owner = .ok bytes) :
    ∃ next, context.encode later owner = .ok next ∧ next.length = bytes.length ∧
      (next = bytes ↔ ∀ action ∈ context.actions, ¬names.Shadowed later owner action.lookup) := by
  simp only [encode_eq_ok_iff, mapM_eq_ok_iff] at written ⊢
  obtain ⟨actions, resolved, laid⟩ := written
  obtain ⟨others, resolvedLater, same⟩ : ∃ others,
      List.Forall₂ (fun action result => context.resolveAction later owner action = .ok result)
        context.actions others ∧
      (others = actions ↔ ∀ action ∈ context.actions, ¬names.Shadowed later owner action.lookup) := by
    refine exists_partners (resolved.imp ?_)
    rintro action ⟨position, number⟩ here
    obtain ⟨inside, rfl, found⟩ := resolveAction_eq_ok_iff.mp here
    obtain ⟨next, foundLater, unchanged⟩ := lists.resolve_grown grown found
    exact ⟨(action.position, next), resolveAction_eq_ok_iff.mpr ⟨inside, rfl, foundLater⟩, by simp [unchanged]⟩
  obtain ⟨next, laidLater, length, sameBytes⟩ :=
    layout_congr laid (resolvedLater.length_eq.symm.trans resolved.length_eq)
  exact ⟨next, ⟨others, resolvedLater, laidLater⟩, length, sameBytes.trans same⟩

end ChainedContext

namespace Subtable

/-- The bytes that a subtable is encoded to, whatever the delta sets are. -/
def Makes (font : Font) (names : LookupNames) (owner : String) (subtable : Subtable) (bytes : List UInt8) : Prop :=
  ∀ sets, (subtable.encode font names owner).run sets = (.ok bytes, sets)

/-- The actions whose names the bytes depend on. -/
def actions : Subtable → List ChainedAction
  | .chaining context => context.actions
  | _ => []

theorem Encodes.makes {subtable : Subtable} (made : subtable.Encodes font names owner sets bytes)
    (off : font.options.variableAnchors = false) : subtable.Makes font names owner bytes := by
  obtain ⟨outcome, run⟩ := (subtable.encode_composed font names owner).still off
  obtain ⟨before, after, _, ran, _⟩ := made
  rw [run] at ran
  cases ran
  exact run

theorem Makes.unique {subtable : Subtable} (one : subtable.Makes font names owner bytes)
    (two : subtable.Makes font names owner others) : bytes = others := by
  have same := (one font.deltaSets).symm.trans (two font.deltaSets)
  cases same
  rfl

theorem Makes.grown {names later : LookupNames} {subtable : Subtable} (made : subtable.Makes font names owner bytes)
    (lists : names.Lists listed) (grown : later.Lists (listed ++ more)) :
    ∃ next, subtable.Makes font later owner next ∧ next.length = bytes.length ∧
      (next = bytes ↔ ∀ action ∈ subtable.actions, ¬names.Shadowed later owner action.lookup) := by
  cases subtable with
  | chaining context =>
    have written : context.encode names owner = .ok bytes := congrArg Prod.fst (made font.deltaSets)
    obtain ⟨next, writtenLater, length, same⟩ := context.encode_grown lists grown written
    refine ⟨next, fun sets => ?_, length, same⟩
    show (context.encode later owner, sets) = _
    rw [writtenLater]
  | _ => exact ⟨bytes, made, rfl, by simp [actions]⟩

end Subtable

namespace Lookup

theorem assemble_congr {lookup : Lookup} {subtables others : List (List UInt8)}
    (assembled : lookup.assemble subtables = .ok bytes)
    (lengths : others.map List.length = subtables.map List.length) :
    ∃ next, lookup.assemble others = .ok next ∧ (next = bytes ↔ others = subtables) := by
  have count : others.length = subtables.length := by
    simpa only [List.length_map] using congrArg List.length lengths
  simp only [assemble, bind_eq_ok_iff, pure_eq_ok_iff] at assembled
  obtain ⟨number, counted, placed, advanced, rfl⟩ := assembled
  -- The header is made of the count and the lengths, which are the same.
  simp only [assemble, bind_eq_ok_iff, pure_eq_ok_iff, count, lengths]
  refine ⟨_, ⟨number, counted, placed, advanced, rfl⟩, ?_⟩
  rw [List.append_cancel_left_eq]
  exact ⟨fun same => List.eq_iff_flatten_eq.mpr ⟨same, lengths⟩, congrArg List.flatten⟩

/-- The lookup with the same subtables and no bytes. -/
def withoutBytes (lookup : Lookup) : Lookup :=
  { lookup with slots := lookup.slots.map fun slot => { subtable := slot.subtable } }

theorem encodeSlots_of_makes {slots : List LookupSlot} {contents : List (List UInt8)}
    (each : List.Forall₂ (fun slot content => slot.subtable.Makes font names owner content) slots contents)
    (index : Nat) (sets : DeltaSets) : ∃ filled,
      encodeSlots font names owner index (slots.map fun slot => { subtable := slot.subtable }) sets =
        (.ok (), filled, sets) ∧ filled.map (fun slot => slot.encoded.getD []) = contents := by
  induction each generalizing index with
  | nil => exact ⟨[], rfl, rfl⟩
  | @cons slot content slots contents here _ ih =>
    obtain ⟨filled, encoding, same⟩ := ih (index + 1)
    refine ⟨⟨slot.subtable, some content⟩ :: filled, ?_, by rw [List.map_cons, same]; rfl⟩
    rw [List.map_cons, encodeSlots, here sets]
    simp only [encoding]

/-- The bytes of a lookup that is encoded with these names from nothing, whatever the delta sets are. -/
def Makes (font : Font) (names : LookupNames) (lookup : Lookup) (bytes : List UInt8) : Prop :=
  ∀ sets, ∃ next, lookup.withoutBytes.encode font names sets = (.ok bytes, next, sets)

/-- All bytes are those that these names make. -/
def Current (font : Font) (names : LookupNames) (lookup : Lookup) : Prop :=
  ∀ slot ∈ lookup.slots, ∀ content, slot.encoded = some content → slot.subtable.Makes font names lookup.name content

/-- A lookup whose subtables can all be made again, to as many bytes, can be made again; it gets the same bytes exactly
if these were current. -/
theorem Settled.remade {lookup : Lookup} (settled : lookup.Settled bytes)
    (each : ∀ slot ∈ lookup.slots, ∀ content, slot.encoded = some content →
      ∃ next, slot.subtable.Makes font names lookup.name next ∧ next.length = content.length) :
    ∃ next, lookup.Makes font names next ∧ (next = bytes ↔ lookup.Current font names) := by
  obtain ⟨contents, all, assembled⟩ := settled
  have paired := map_eq_map_iff.mp all
  obtain ⟨others, made, same⟩ : ∃ others, List.Forall₂ (fun slot next =>
      slot.subtable.Makes font names lookup.name next ∧ next.length = (slot.encoded.getD []).length)
        lookup.slots others ∧ (others = contents ↔ lookup.Current font names) := by
    refine exists_partners (((List.forall₂_and_left _ _).mpr ⟨each, paired⟩).imp ?_)
    rintro slot content ⟨remakes, cached⟩
    obtain ⟨next, makes, length⟩ := remakes content cached
    refine ⟨next, ⟨makes, by rw [cached, Option.getD_some, length]⟩, ?_⟩
    constructor
    · rintro rfl other again
      cases cached.symm.trans again
      exact makes
    · intro current
      exact makes.unique (current content cached)
  have lengths : others.map List.length = contents.map List.length := by
    have cached : contents = lookup.slots.map fun slot => slot.encoded.getD [] := by
      have plain := congrArg (List.map fun content => content.getD []) all
      simpa [Function.comp_def] using plain.symm
    rw [cached, List.map_map, map_eq_map_iff]
    exact (made.imp fun _ _ related => related.2).flip
  obtain ⟨next, assembledAgain, sameBytes⟩ := assemble_congr assembled lengths
  refine ⟨next, fun sets => ?_, sameBytes.trans same⟩
  obtain ⟨filled, encoding, contentsOf⟩ := encodeSlots_of_makes (made.imp fun _ _ related => related.1) 0 sets
  refine ⟨{ lookup with slots := filled }, ?_⟩
  rw [encode, withoutBytes]
  simp only [encoding, contentsOf]
  show ((lookup.assemble others).mapError CompileError.write, _, _) = _
  rw [assembledAgain]
  rfl

end Lookup

end Kashida
