import Kashida.Compiler
import Kashida.Proofs.Lookup.Encoding

/-! What a compilation does, whether it succeeds or not: slots without bytes may get them, delta sets may grow, and
nothing else changes. -/
namespace Kashida

theorem LookupSlot.Encoded.trans {first second third : LookupSlot} (early : Encoded font names owner sets first second)
    (late : Encoded font names owner sets second third) : Encoded font names owner sets first third := by
  cases early with
  | kept => exact late
  | made made =>
    cases late with
    | kept => exact .made made

theorem LookupSlot.encoded_trans {slots : List LookupSlot}
    (early : List.Forall₂ (Encoded font names owner sets) slots others)
    (late : List.Forall₂ (Encoded font names owner sets) others final) :
    List.Forall₂ (Encoded font names owner sets) slots final := by
  induction early generalizing final with
  | nil => exact late
  | cons here _ ih =>
    cases late with
    | cons there rest => exact .cons (here.trans there) (ih rest)

/-- Slots that all have bytes stay as they are. -/
theorem LookupSlot.encoded_eq {slots : List LookupSlot} {subtables : List (List UInt8)}
    (full : slots.map encoded = subtables.map some)
    (each : List.Forall₂ (Encoded font names owner sets) slots next) : next = slots := by
  induction each generalizing subtables with
  | nil => rfl
  | cons here _ ih =>
    cases subtables with
    | nil => cases full
    | cons subtable subtables =>
      rw [List.map_cons, List.map_cons, List.cons.injEq] at full
      rw [ih full.2]
      cases here with
      | kept => rfl
      | made => cases full.1

namespace Lookup

namespace Reencoded

theorem refl (lookup : Lookup) : Reencoded font names sets lookup lookup :=
  ⟨lookup.slots, rfl, List.forall₂_same.mpr fun _ _ => .kept⟩

theorem mono {before after : DeltaSets} (reencoded : Reencoded font names before lookup next)
    (grown : before.Extends after) : Reencoded font names after lookup next := by
  obtain ⟨slots, rfl, each⟩ := reencoded
  exact ⟨slots, rfl, each.imp fun _ _ encoded => encoded.mono grown⟩

theorem trans (early : Reencoded font names sets first second) (late : Reencoded font names sets second third) :
    Reencoded font names sets first third := by
  obtain ⟨slots, rfl, each⟩ := early
  obtain ⟨others, rfl, eachLater⟩ := late
  exact ⟨others, rfl, LookupSlot.encoded_trans each eachLater⟩

end Reencoded

/-- A lookup whose slots all have bytes is not encoded again. -/
theorem Settled.reencoded (settled : Settled lookup bytes) (reencoded : Reencoded font names sets lookup next) :
    next.Settled bytes := by
  obtain ⟨subtables, all, assembled⟩ := settled
  obtain ⟨slots, rfl, each⟩ := reencoded
  exact ⟨subtables, by rw [LookupSlot.encoded_eq all each, all], assembled⟩

end Lookup

namespace LookupTable

/-- A table before and after an encoding: its lookups may have got bytes. -/
structure Reencoded (font : Font) (sets : DeltaSets) (before after : LookupTable) : Prop where
  names : after.names = before.names
  lookups : ∀ number : UInt16,
    Option.Rel (Lookup.Reencoded font before.names sets) before.lookups[number]? after.lookups[number]?

namespace Reencoded

theorem refl (table : LookupTable) : Reencoded font sets table table := by
  refine ⟨rfl, fun number => ?_⟩
  cases table.lookups[number]? with
  | none => exact .none
  | some lookup => exact .some (.refl lookup)

theorem mono {early late : DeltaSets} (reencoded : Reencoded font early before after) (grown : early.Extends late) :
    Reencoded font late before after :=
  ⟨reencoded.names, fun number => rel_imp (fun _ _ same => same.mono grown) (reencoded.lookups number)⟩

theorem trans {first second third : LookupTable} (early : Reencoded font sets first second)
    (late : Reencoded font sets second third) : Reencoded font sets first third := by
  refine ⟨late.names.trans early.names, fun number => ?_⟩
  have rest := late.lookups number
  rw [early.names] at rest
  exact rel_trans (fun _ _ _ same sameAgain => same.trans sameAgain) (early.lookups number) rest

end Reencoded

/-- Names and subtables stay what they are. -/
theorem Reencoded.subtable {before after : LookupTable} {number : UInt16} {lookup : Lookup} {subtable : Subtable}
    (reencoded : Reencoded font sets before after) (found : before.lookups[number]? = some lookup)
    (isSubtable : lookup.subtable? index = some subtable) :
    ∃ next, after.lookups[number]? = some next ∧ next.name = lookup.name ∧ next.subtable? index = some subtable := by
  have related := reencoded.lookups number
  rw [found] at related
  generalize after.lookups[number]? = there at related ⊢
  cases related with
  | some same =>
    obtain ⟨slots, rfl, each⟩ := same
    obtain ⟨slot, atIndex, isTable⟩ := Option.map_eq_some_iff.mp isSubtable
    obtain ⟨next, atNext, encoded⟩ := exists_getElem?_of_forall₂ each atIndex
    refine ⟨_, rfl, rfl, Option.map_eq_some_iff.mpr ⟨next, atNext, ?_⟩⟩
    cases encoded <;> exact isTable

theorem put_reencoded {table : LookupTable} {number : UInt16} (found : table.lookups[number]? = some lookup)
    (reencoded : lookup.Reencoded font table.names sets next) : Reencoded font sets table (table.put number next) := by
  refine ⟨rfl, fun other => ?_⟩
  rw [put, Std.TreeMap.getElem?_insert]
  split
  · rename_i same
    cases Std.LawfulEqOrd.eq_of_compare same
    rw [found]
    exact .some reencoded
  · exact (Reencoded.refl table).lookups other

/-- These are the bytes of the lookups under the numbers of these names. -/
def Gives (table : LookupTable) (names : List (Nat × String)) (lookups : List (List UInt8)) : Prop :=
  List.Forall₂ (fun entry bytes => ∃ lookup, table.lookups[UInt16.ofNat entry.1]? = some lookup ∧ lookup.Settled bytes)
    names lookups

theorem encodeFrom_spec {table : LookupTable} {names : List (Nat × String)} (valid : sets.Valid)
    (step : table.encodeFrom font kind names sets = (outcome, next, after)) :
    after.Valid ∧ sets.Extends after ∧ Reencoded font after table next ∧
      ∀ lookups, outcome = .ok lookups → next.Gives names lookups := by
  induction names generalizing table sets outcome next after with
  | nil =>
    cases step
    refine ⟨valid, .refl _, .refl _, ?_⟩
    intro lookups same
    cases same
    exact .nil
  | cons entry names ih =>
    obtain ⟨number, name⟩ := entry
    unfold encodeFrom at step
    split at step
    · cases step
      exact ⟨valid, .refl _, .refl _, fun lookups same => by cases same⟩
    · rename_i lookup found
      split at step
      · rename_i error tried middle encoding
        cases step
        obtain ⟨validNext, grown, reencoded, _⟩ := Lookup.encode_spec valid encoding
        exact ⟨validNext, grown, put_reencoded found reencoded, fun lookups same => by cases same⟩
      · rename_i bytes done middle encoding
        obtain ⟨validMiddle, grown, reencoded, settled⟩ := Lookup.encode_spec valid encoding
        generalize rest : (table.put (.ofNat number) done).encodeFrom font kind names middle = final at step
        obtain ⟨result, last, lastSets⟩ := final
        obtain ⟨validNext, grownFurther, later, gives⟩ := ih validMiddle rest
        have whole := (put_reencoded found (reencoded.mono grownFurther)).trans later
        cases result with
        | error error =>
          cases step
          exact ⟨validNext, grown.trans grownFurther, whole, fun lookups same => by cases same⟩
        | ok others =>
          cases step
          refine ⟨validNext, grown.trans grownFurther, whole, ?_⟩
          intro lookups same
          cases same
          refine .cons ?_ (gives others rfl)
          -- The lookup was settled when it was put back, and encoding the others leaves it so.
          have kept := later.lookups (.ofNat number)
          rw [put, Std.TreeMap.getElem?_insert_self] at kept
          generalize next.lookups[UInt16.ofNat number]? = there at kept ⊢
          cases kept with
          | some again => exact ⟨_, rfl, (settled bytes rfl).reencoded again⟩

end LookupTable

namespace Compiler

/-- A compiler before and after a compilation. -/
structure Recompiled (before after : Compiler) : Prop where
  font : after.font = before.font
  valid : after.sets.Valid
  grown : before.sets.Extends after.sets
  tables : ∀ kind, (before.table kind).Reencoded before.font after.sets (after.table kind)

/-- What a compilation gives: the bytes of every registered lookup, and the store unless it would be empty. -/
structure Gives (compiler : Compiler) (compiled : CompiledTables) : Prop where
  lookups : ∀ kind, (compiler.table kind).Gives (compiler.table kind).names.toList (compiled.lookups kind)
  store : compiler.sets.isEmpty = false → ∃ bytes, compiled.store = some bytes ∧ compiler.sets.encode = .ok bytes

theorem compile_spec {compiler : Compiler} (valid : compiler.sets.Valid) (step : compiler.compile = (outcome, next)) :
    Recompiled compiler next ∧ ∀ compiled, outcome = .ok compiled → next.Gives compiled := by
  unfold compile at step
  split at step
  · rename_i error substitution middle encoding
    cases step
    obtain ⟨validNext, grown, first, _⟩ := LookupTable.encodeFrom_spec valid encoding
    refine ⟨⟨rfl, validNext, grown, ?_⟩, fun compiled same => by cases same⟩
    rintro (_ | _)
    · exact first
    · exact .refl _
  · rename_i substitutionBytes substitution middle encoding
    obtain ⟨validMiddle, grown, first, substitutionGives⟩ := LookupTable.encodeFrom_spec valid encoding
    split at step
    · rename_i error positioning after encodingAgain
      cases step
      obtain ⟨validNext, grownFurther, second, _⟩ := LookupTable.encodeFrom_spec validMiddle encodingAgain
      refine ⟨⟨rfl, validNext, grown.trans grownFurther, ?_⟩, fun compiled same => by cases same⟩
      rintro (_ | _)
      · exact first.mono grownFurther
      · exact second
    · rename_i positioningBytes positioning after encodingAgain
      obtain ⟨validNext, grownFurther, second, positioningGives⟩ :=
        LookupTable.encodeFrom_spec validMiddle encodingAgain
      have recompiled : Recompiled compiler { compiler with substitution, positioning, sets := after } := by
        refine ⟨rfl, validNext, grown.trans grownFurther, ?_⟩
        rintro (_ | _)
        · exact first.mono grownFurther
        · exact second
      have lookups : ∀ kind (store : Option (List UInt8)), LookupTable.Gives
          (Compiler.table { compiler with substitution, positioning, sets := after } kind)
          (Compiler.table { compiler with substitution, positioning, sets := after } kind).names.toList
          (CompiledTables.lookups ⟨substitutionBytes, positioningBytes, store⟩ kind) := by
        rintro (_ | _) store
        · show substitution.Gives substitution.names.toList substitutionBytes
          rw [first.names]
          exact substitutionGives _ rfl
        · show positioning.Gives positioning.names.toList positioningBytes
          rw [second.names]
          exact positioningGives _ rfl
      simp only at step
      split at step
      · rename_i empty
        cases step
        refine ⟨recompiled, ?_⟩
        intro compiled same
        cases same
        exact ⟨fun kind => lookups kind none, fun filled => by rw [empty] at filled; cases filled⟩
      · cases step
        refine ⟨recompiled, ?_⟩
        intro compiled same
        split at same
        · rename_i store written
          cases same
          exact ⟨fun kind => lookups kind _, fun _ => ⟨store, rfl, written⟩⟩
        · cases same

theorem compile_recompiled {compiler : Compiler} (valid : compiler.sets.Valid) :
    Recompiled compiler compiler.compile.2 := (compile_spec valid rfl).1

end Compiler

end Kashida
