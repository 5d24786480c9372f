import Kashida.Proofs.Positioning.CursiveMeaning

/-! Compiling again. A lookup that has all its bytes is put together from them, and encoding it asks for no delta sets;
so a compilation right after another gives the same, and a lookup that no step touches in between keeps its bytes. The
rows of the store keep their places through every step, failed ones included. -/
namespace Kashida

namespace Lookup

theorem encodeSlots_settled {slots : List LookupSlot} {contents : List (List UInt8)}
    (all : slots.map LookupSlot.encoded = contents.map some) (index : Nat) :
    encodeSlots font names owner index slots sets = (.ok (), slots, sets) := by
  induction slots generalizing contents index with
  | nil => rfl
  | cons slot slots ih =>
    cases contents with
    | nil => cases all
    | cons content contents =>
      obtain ⟨here, rest⟩ := List.cons.inj all
      obtain ⟨subtable, encoded⟩ := slot
      cases here
      simp only [encodeSlots, ih rest]

theorem Settled.encode_eq {lookup : Lookup} (settled : lookup.Settled bytes) :
    lookup.encode font names sets = (.ok bytes, lookup, sets) := by
  obtain ⟨contents, all, assembled⟩ := settled
  have held : lookup.slots.map (fun slot => slot.encoded.getD []) = contents := by
    have filled := congrArg (List.map (Option.getD · [])) all
    simpa [Function.comp_def] using filled
  simp only [encode, encodeSlots_settled all, held, assembled]
  rfl

theorem Settled.unique {lookup : Lookup} (one : lookup.Settled bytes) (other : lookup.Settled content) :
    bytes = content := by
  obtain ⟨subtables, all, assembled⟩ := one
  obtain ⟨contents, allAgain, assembledAgain⟩ := other
  have same : subtables = contents :=
    (List.map_inj_right fun _ _ => Option.some.inj).mp (all.symm.trans allAgain)
  rw [same, assembledAgain] at assembled
  exact (Except.ok.inj assembled).symm

/-- A lookup that has all its bytes stays as it is. -/
theorem Settled.reencoded_eq {lookup : Lookup} (settled : lookup.Settled bytes)
    (reencoded : Reencoded font names sets lookup next) : next = lookup := by
  obtain ⟨subtables, all, _⟩ := settled
  obtain ⟨slots, rfl, each⟩ := reencoded
  rw [LookupSlot.encoded_eq all each]

end Lookup

namespace LookupTable

theorem getElem?_put (table : LookupTable) (number : UInt16) (lookup : Lookup) (other : UInt16) :
    (table.put number lookup).lookups[other]? = if number = other then some lookup else table.lookups[other]? := by
  simp only [put, Std.TreeMap.getElem?_insert, Std.LawfulEqOrd.compare_eq_iff_eq]

/-- Putting a lookup back where it is changes nothing. -/
theorem getElem?_put_back {table : LookupTable} {number : UInt16} {lookup : Lookup}
    (found : table.lookups[number]? = some lookup) (other : UInt16) :
    (table.put number lookup).lookups[other]? = table.lookups[other]? := by
  rw [getElem?_put]
  split
  · rename_i same
    rw [← same, found]
  · rfl

/-- Lookups that have all their bytes give them again. -/
theorem Gives.encodeFrom_eq {table : LookupTable} {names : List (Nat × String)} {lookups : List (List UInt8)}
    (gives : table.Gives names lookups) (font : Font) (kind : TableKind) (sets : DeltaSets) :
    ∃ next, table.encodeFrom font kind names sets = (.ok lookups, next, sets) := by
  induction names generalizing table lookups with
  | nil =>
    cases gives
    exact ⟨table, rfl⟩
  | cons entry names ih =>
    cases gives with
    | @cons _ _ _ others here rest =>
      obtain ⟨lookup, found, settled⟩ := here
      have later : (table.put (.ofNat entry.1) lookup).Gives names others := by
        refine List.Forall₂.imp ?_ rest
        rintro other bytes ⟨another, there, settled⟩
        exact ⟨another, by rw [getElem?_put_back found, there], settled⟩
      obtain ⟨next, encoding⟩ := ih later
      exact ⟨next, by simp only [encodeFrom, found, settled.encode_eq, encoding]⟩

/-- The bytes at a place are those of the lookup under that number. -/
theorem Orderly.given {table : LookupTable} {lookups : List (List UInt8)} (orderly : table.Orderly kind listed)
    (gives : table.Gives table.names.toList lookups) (found : lookups[number]? = some bytes) :
    ∃ lookup, table.lookups[UInt16.ofNat number]? = some lookup ∧ lookup.Settled bytes ∧
      (UInt16.ofNat number).toNat = number ∧ listed[number]? = some lookup.name := by
  obtain ⟨entry, atNumber, lookup, there, settled⟩ := exists_getElem?_of_forall₂ gives.flip found
  have bound : number < listed.length := by
    have inside := (List.getElem?_eq_some_iff.mp atNumber).1
    rwa [orderly.lists.toList, List.length_map, List.length_zipIdx] at inside
  rw [orderly.lists.entry bound] at atNumber
  cases atNumber
  have small := orderly.lists.toNat_ofNat bound
  have named := (orderly.named _ lookup there).1
  rw [small] at named
  exact ⟨lookup, there, settled, small, named⟩

end LookupTable

namespace Compiler

theorem compile_store {compiler next : Compiler} (step : compiler.compile = (.ok compiled, next))
    (empty : next.sets.isEmpty = true) : compiled.store = none := by
  unfold compile at step
  split at step
  · cases step
  · split at step
    · cases step
    · simp only at step
      split at step
      · cases step
        rfl
      · rename_i filled
        obtain ⟨_, rfl⟩ := Prod.mk.inj step
        exact absurd empty filled

/-- A compiler that has all its bytes compiles to them. -/
theorem Gives.compile_eq {compiler : Compiler} (gives : compiler.Gives compiled)
    (storeless : compiler.sets.isEmpty = true → compiled.store = none) : compiler.compile.1 = .ok compiled := by
  obtain ⟨substitution, first⟩ := (gives.lookups .substitution).encodeFrom_eq compiler.font .substitution compiler.sets
  obtain ⟨positioning, second⟩ := (gives.lookups .positioning).encodeFrom_eq compiler.font .positioning compiler.sets
  obtain ⟨substitutionBytes, positioningBytes, store⟩ := compiled
  simp only [table, CompiledTables.lookups] at first second
  simp only [compile, LookupTable.encode, first, second]
  cases empty : compiler.sets.isEmpty with
  | true =>
    cases storeless empty
    rfl
  | false =>
    obtain ⟨bytes, isStore, written⟩ := gives.store empty
    cases isStore
    simp [written]

end Compiler

/-- A step that concerns a lookup: it puts another in its place, appends a subtable or takes one to change it. Naming
the lookup is not enough, as a subtable of another kind is refused, and a place without a subtable gives none. -/
def SessionStep.Touches (lookup : Lookup) : SessionStep → Prop
  | .declare _ _ | .compile => False
  | .add other => other.kind.table = lookup.kind.table ∧ other.name = lookup.name
  | .push kind name subtable => kind = lookup.kind.table ∧ name = lookup.name ∧ lookup.kind.accepts subtable = true
  | .change kind name index _ => kind = lookup.kind.table ∧ name = lookup.name ∧ index < lookup.slots.length

namespace Compiler

variable {compiler : Compiler} {kind : TableKind} {number : UInt16} {lookup : Lookup}

/-- Changing a lookup leaves another where it is, and this one too if the change keeps it. -/
theorem updateLookup?_kept {change : Lookup → Option (α × Lookup)} {table : TableKind} {owner : String}
    (orderly : (compiler.table kind).Orderly kind listed) (found : (compiler.table kind).lookups[number]? = some lookup)
    (kept : table = lookup.kind.table → owner = lookup.name → ∀ answer changed, change lookup = some (answer, changed) →
      changed = lookup) :
    ((((compiler.updateLookup? table owner change).map Prod.snd).getD compiler).table kind).lookups[number]? =
      some lookup := by
  cases changing : compiler.updateLookup? table owner change with
  | none => exact found
  | some result =>
    obtain ⟨answer, next⟩ := result
    obtain ⟨other, there, changed, isNumber, foundThere, changes, rfl⟩ := updateLookup?_parts changing
    rw [Option.map_some, Option.getD_some, table_setTable]
    by_cases sameTable : table = kind
    · subst sameTable
      rw [if_pos rfl, LookupTable.getElem?_put]
      by_cases sameNumber : other = number
      · subst sameNumber
        cases found.symm.trans foundThere
        obtain ⟨named, ofKind⟩ := orderly.named other lookup found
        have isOwner : owner = lookup.name :=
          Option.some.inj (((orderly.lists.numbers owner other).mp isNumber).symm.trans named)
        rw [if_pos rfl, kept ofKind.symm isOwner answer changed changes]
      · rw [if_neg sameNumber, found]
    · rw [if_neg sameTable, found]

theorem add_kept (orderly : ∀ kind, ∃ listed, (compiler.table kind).Orderly kind listed)
    (found : (compiler.table kind).lookups[number]? = some lookup) (new : Lookup)
    (other : ¬(new.kind.table = lookup.kind.table ∧ new.name = lookup.name)) :
    ((compiler.add new).2.table kind).lookups[number]? = some lookup := by
  rw [add_eq]
  split
  · rw [table_setTable]
    split
    · rename_i same
      rw [← same] at found
      exact found
    · exact found
  · rename_i place names registering
    rw [table_setTable]
    split
    · rename_i same
      subst same
      rw [LookupTable.getElem?_put, if_neg, found]
      rintro rfl
      -- The number is that of one name only.
      obtain ⟨listed, orderly⟩ := orderly new.kind.table
      obtain ⟨more, next, isPlace⟩ := orderly.register registering
      obtain ⟨named, ofKind⟩ := next.named place lookup found
      exact other ⟨ofKind.symm, Option.some.inj ((isPlace place rfl).symm.trans named)⟩
    · exact found

/-- A step that does not touch a lookup with all its bytes leaves it as it is. -/
theorem take_untouched (valid : compiler.sets.Valid)
    (orderly : ∀ kind, ∃ listed, (compiler.table kind).Orderly kind listed)
    (found : (compiler.table kind).lookups[number]? = some lookup) (settled : lookup.Settled bytes)
    {step : SessionStep} (untouched : ¬step.Touches lookup.withoutBytes) :
    ((compiler.take step).table kind).lookups[number]? = some lookup := by
  obtain ⟨listed, ordered⟩ := orderly kind
  cases step with
  | declare table name =>
    rw [take, declare, table_setTable]
    split
    · rename_i same
      rw [← same] at found
      exact found
    · exact found
  | add new => exact add_kept orderly found new untouched
  | push table name subtable =>
    rw [take, push?]
    refine updateLookup?_kept ordered found fun sameTable sameName answer changed changing => ?_
    have refused : lookup.kind.accepts subtable ≠ true := fun accepted => untouched ⟨sameTable, sameName, accepted⟩
    simp only [Lookup.push, if_neg refused] at changing
    cases changing
    rfl
  | change table name index alter =>
    rw [take, updateSubtable?]
    refine updateLookup?_kept ordered found fun sameTable sameName answer changed changing => ?_
    obtain ⟨slot, atIndex, _⟩ := Option.map_eq_some_iff.mp changing
    have inside := (List.getElem?_eq_some_iff.mp atIndex).1
    exact absurd ⟨sameTable, sameName, by rwa [Lookup.withoutBytes, List.length_map]⟩ untouched
  | compile =>
    have related := ((compile_recompiled valid).tables kind).lookups number
    rw [found] at related
    rw [take]
    generalize (compiler.compile.2.table kind).lookups[number]? = there at related ⊢
    cases related with
    | some reencoded => rw [settled.reencoded_eq reencoded]

theorem session_untouched {font : Font} {since : List SessionStep}
    (found : ((session font since).table kind).lookups[number]? = some lookup) (settled : lookup.Settled bytes)
    (steps : List SessionStep) (untouched : ∀ step ∈ steps, ¬step.Touches lookup.withoutBytes) :
    ((session font (since ++ steps)).table kind).lookups[number]? = some lookup := by
  induction steps using List.reverseRecOn with
  | nil => rwa [List.append_nil]
  | append_singleton steps step ih =>
    have earlier := ih fun other member => untouched other (List.mem_append_left _ member)
    have sound := session_sound font (since ++ steps)
    rw [← List.append_assoc, session_concat]
    exact take_untouched sound.valid sound.orderly earlier settled (untouched step (by simp))

end Compiler

/-- A row of a store stands at the same index of every later one, with the same regions and deltas. -/
theorem DeltaSets.Extends.stored_row? {before after : DeltaSets} {extent laterExtent : Nat}
    (grown : before.Extends after) (valid : before.Valid)
    (found : VariationStore.row? ⟨2, before.regions.map Region.spans, before.groups.toList.map DeltaGroup.stored,
      extent⟩ index = some row) :
    VariationStore.row? ⟨2, after.regions.map Region.spans, after.groups.toList.map DeltaGroup.stored, laterExtent⟩
      index = some row := by
  simp only [VariationStore.row?, List.getElem?_map, Array.getElem?_toList, Option.bind_eq_bind,
    Option.bind_eq_some_iff, Option.map_eq_some_iff, Option.pure_def, Option.some.injEq] at found ⊢
  obtain ⟨_, ⟨group, atOuter, rfl⟩, deltas, atInner, rfl⟩ := found
  obtain ⟨later, kept, sameRegions, suffix, rows⟩ := grown.groups _ _ atOuter
  have known := (valid.fits group (Array.mem_of_getElem? atOuter)).known
  refine ⟨later.stored, ⟨later, kept, rfl⟩, deltas, ?_, ?_⟩
  · show later.rows.toList[index.inner.toNat]? = some deltas
    rw [← rows]
    exact (List.getElem?_append_left (List.getElem?_eq_some_iff.mp atInner).1).trans atInner
  · have spans : ∀ region ∈ group.regions, (after.regions.map Region.spans).getD region.toNat [] =
        (before.regions.map Region.spans).getD region.toNat [] := by
      intro region member
      have here := List.getElem?_eq_getElem (known region member)
      simp only [List.getD_eq_getElem?_getD, List.getElem?_map, here, grown.region here]
    simp only [DeltaGroup.stored, sameRegions, ← List.map_uncurry_zip_eq_zipWith]
    refine List.map_congr_left ?_
    rintro ⟨region, delta⟩ member
    simp only [Function.uncurry_apply_pair, spans region (List.of_mem_zip member).1]

theorem DeltaSets.Extends.nonempty {before after : DeltaSets} (grown : before.Extends after)
    (filled : before.isEmpty = false) : after.isEmpty = false := by
  obtain ⟨columns, member⟩ := Std.TreeMap.isEmpty_eq_false_iff_exists_mem.mp filled
  obtain ⟨index, found⟩ := Option.isSome_iff_exists.mp (Std.TreeMap.mem_iff_isSome_getElem?.mp member)
  refine Std.TreeMap.isEmpty_eq_false_iff_exists_mem.mpr ⟨columns, ?_⟩
  rw [Std.TreeMap.mem_iff_isSome_getElem?, grown.indexes columns index found]
  rfl

namespace Compiler

variable {font : Font} {before between : List SessionStep} {first second : CompiledTables}

theorem session_storeless (success : (session font before).compile.1 = .ok first)
    (empty : (session font (before ++ [.compile])).sets.isEmpty = true) : first.store = none := by
  rw [session_concat, take] at empty
  have step : (session font before).compile = (.ok first, (session font before).compile.2) := Prod.ext success rfl
  exact compile_store step empty

/-- The store of a compilation, and what it reads back as. -/
theorem session_store (success : (session font before).compile.1 = .ok first)
    (filled : (session font (before ++ [.compile])).sets.isEmpty = false) :
    ∃ data, first.store = some data ∧ VariationStore.read data =
      .ok ⟨2, (session font (before ++ [.compile])).sets.regions.map Region.spans,
        (session font (before ++ [.compile])).sets.groups.toList.map DeltaGroup.stored, data.length⟩ := by
  obtain ⟨data, isStore, written⟩ := ((session_compile font before).2 first success).store filled
  exact ⟨data, isStore, DeltaSets.read_encode (session_sound font _).valid written⟩

theorem compiled_rows_kept (success : (session font before).compile.1 = .ok first)
    (again : (session font (before ++ .compile :: between)).compile.1 = .ok second)
    (isStore : first.store = some data) :
    ∃ store laterData later, VariationStore.read data = .ok store ∧ second.store = some laterData ∧
      VariationStore.read laterData = .ok later ∧ ∀ index row, store.row? index = some row →
        later.row? index = some row := by
  have grown := session_grows font (before ++ [.compile]) (between ++ [.compile])
  rw [← List.append_assoc, List.append_assoc before, List.singleton_append] at grown
  have filled : (session font (before ++ [.compile])).sets.isEmpty = false := by
    refine Bool.eq_false_iff.mpr fun empty => ?_
    rw [session_storeless success empty] at isStore
    cases isStore
  obtain ⟨_, sameStore, decoded⟩ := session_store success filled
  cases isStore.symm.trans sameStore
  obtain ⟨laterData, isLater, laterDecoded⟩ := session_store again (grown.nonempty filled)
  exact ⟨_, laterData, _, decoded, isLater, laterDecoded, fun index row found =>
    grown.stored_row? (session_sound font _).valid found⟩

/-- A compiled lookup is the latest of its name, and stays where it is while no step touches it. -/
theorem compiled_lookup_kept (success : (session font before).compile.1 = .ok first)
    (again : (session font (before ++ .compile :: between)).compile.1 = .ok second)
    {number : Nat} (found : (first.lookups kind)[number]? = some bytes) :
    ∃ name lookup, (registered kind before)[number]? = some name ∧ latest kind name before = some lookup ∧
      ((∀ step ∈ between, ¬step.Touches lookup) → (second.lookups kind)[number]? = some bytes) := by
  have orderly := session_orderly font (before ++ [.compile]) kind
  have sameNames : registered kind (before ++ [.compile]) = registered kind before := registered_idle rfl before
  obtain ⟨lookup, there, settled, small, named⟩ :=
    orderly.given (((session_compile font before).2 first success).lookups kind) found
  have isLatest := session_latest font (List.mem_of_getElem? named)
  have isFound : (session font (before ++ [.compile])).find? kind lookup.name = some lookup := by
    have isNumber := (orderly.lists.numbers lookup.name (.ofNat number)).mpr (by rw [small, named])
    rw [find?, LookupTable.find?, isNumber]
    exact there
  rw [isFound, latest_concat] at isLatest
  refine ⟨lookup.name, lookup.withoutBytes, sameNames ▸ named, isLatest.symm, fun untouched => ?_⟩
  -- The second compilation touches the lookup no more than the steps before it.
  have kept := session_untouched there settled (between ++ [.compile]) fun step member => by
    rcases List.mem_append.mp member with early | last
    · exact untouched step early
    · rw [List.mem_singleton.mp last]
      exact id
  rw [← List.append_assoc, List.append_assoc before, List.singleton_append] at kept
  have laterOrderly := session_orderly font (before ++ .compile :: between ++ [.compile]) kind
  obtain ⟨content, atNumber, resettled⟩ :=
    laterOrderly.gives (((session_compile font (before ++ .compile :: between)).2 second again).lookups kind) kept
  rw [small] at atNumber
  rw [atNumber, resettled.unique settled]

end Compiler

/-- A compilation right after another succeeds and gives the same. After any steps in between, the lookups that none of
them touched come out with the same bytes at the same places, and every row of the first store is found at its index in
the second, with the same regions and deltas. -/
theorem Compiler.recompiled_lookups_and_rows_are_kept (font : Font) (before : List SessionStep)
    (first : CompiledTables) (success : (session font before).compile.1 = .ok first) :
    (session font (before ++ [.compile])).compile.1 = .ok first ∧
    ∀ between second, (session font (before ++ .compile :: between)).compile.1 = .ok second →
      (∀ kind (number : Nat) bytes, (first.lookups kind)[number]? = some bytes → ∃ name lookup,
        (registered kind before)[number]? = some name ∧ latest kind name before = some lookup ∧
        ((∀ step ∈ between, ¬step.Touches lookup) → (second.lookups kind)[number]? = some bytes)) ∧
      ∀ data, first.store = some data → ∃ store laterData later, VariationStore.read data = .ok store ∧
        second.store = some laterData ∧ VariationStore.read laterData = .ok later ∧
        ∀ index row, store.row? index = some row → later.row? index = some row := by
  refine ⟨?_, fun between second again => ⟨fun kind number bytes => compiled_lookup_kept success again, fun data =>
    compiled_rows_kept success again⟩⟩
  exact ((session_compile font before).2 first success).compile_eq (session_storeless success)

/-- Compiles in vain, adds the lookup that was missing and moves one of its anchors, which then needs rows of its own.
A subtable that the first lookup does not have is asked for too, and a lookup is added that another compiler has
compiled. -/
def joiningLater : List SessionStep :=
  [.declare .positioning "later", .compile, .add (joining "later"), .change .positioning "later" 0 raiseExit,
    .change .positioning "join" 1 raiseExit] ++
    (Compiler.session wideningFont [.add (joining "other"), .compile]).reuse .positioning "other"

theorem Compiler.recompiled_lookups_and_rows_are_kept_after_failure : ∃ first second bytes data laterData store later,
    (session wideningFont [.add (joining "join")]).compile.1 = .ok first ∧
    (session wideningFont ([.add (joining "join")] ++ .compile :: joiningLater)).compile.1 = .ok second ∧
    (∀ step ∈ joiningLater, ¬step.Touches (joining "join")) ∧
    (first.lookups .positioning)[0]? = some bytes ∧ (second.lookups .positioning)[0]? = some bytes ∧
    first.store = some data ∧ second.store = some laterData ∧ laterData.length ≠ data.length ∧
    VariationStore.read data = .ok store ∧ VariationStore.read laterData = .ok later ∧
    ∀ index row, store.row? index = some row → later.row? index = some row := by
  have firstFilled : ((session wideningFont [.add (joining "join")]).compile.1.toOption.any fun compiled =>
      compiled.positioning.length == 1 && compiled.store.map List.length == some 58) = true := by
    decide +kernel
  have secondFilled : ((session wideningFont ([.add (joining "join")] ++
      .compile :: joiningLater)).compile.1.toOption.any fun compiled =>
        compiled.store.map List.length == some 66) = true := by
    decide +kernel
  have elsewhere : ((session wideningFont [.add (joining "other"), .compile]).find? .positioning "other").all
      (fun lookup => lookup.name == "other") = true := by
    decide +kernel
  have untouched : ∀ step ∈ joiningLater, ¬step.Touches (joining "join") := by
    intro step member
    rcases List.mem_append.mp member with here | reused
    · simp only [List.mem_cons, List.not_mem_nil, or_false] at here
      rcases here with rfl | rfl | rfl | rfl | rfl <;> simp [joining, SessionStep.Touches]
    · obtain ⟨lookup, found, rfl⟩ := List.mem_map.mp reused
      rw [Option.mem_toList.mp found, Option.all_some, beq_iff_eq] at elsewhere
      simp [joining, SessionStep.Touches, elsewhere]
  obtain ⟨first, firstOk, firstHas⟩ := exists_of_any firstFilled
  obtain ⟨second, secondOk, secondHas⟩ := exists_of_any secondFilled
  simp only [Bool.and_eq_true, beq_iff_eq] at firstHas secondHas
  obtain ⟨oneLookup, hasStore⟩ := firstHas
  obtain ⟨data, isData, dataLength⟩ := Option.map_eq_some_iff.mp hasStore
  obtain ⟨bytes, isBytes⟩ := List.length_eq_one_iff.mp oneLookup
  have isFirst : (first.lookups .positioning)[0]? = some bytes := by rw [CompiledTables.lookups, isBytes]; rfl
  obtain ⟨_, kept⟩ := recompiled_lookups_and_rows_are_kept wideningFont [.add (joining "join")] first firstOk
  obtain ⟨lookupsKept, rowsKept⟩ := kept joiningLater second secondOk
  obtain ⟨name, lookup, isName, isLatest, same⟩ := lookupsKept .positioning 0 bytes isFirst
  obtain ⟨store, laterData, later, readsFirst, isLater, readsLater, rows⟩ := rowsKept data isData
  have registersJoin : registered .positioning [.add (joining "join")] = ["join"] := by decide +kernel
  rw [registersJoin] at isName
  cases isName
  have isJoin : latest .positioning "join" [.add (joining "join")] = some (joining "join") := rfl
  cases isJoin.symm.trans isLatest
  obtain ⟨_, isLaterData, laterLength⟩ := Option.map_eq_some_iff.mp secondHas
  cases isLater.symm.trans isLaterData
  refine ⟨first, second, bytes, data, laterData, store, later, firstOk, secondOk, untouched, isFirst, same untouched,
    isData, isLater, ?_, readsFirst, readsLater, rows⟩
  rw [dataLength, laterLength]
  decide

end Kashida
