import Kashida.Proofs.Compilation
import Kashida.Proofs.Lookup.Names
import Mathlib.Data.List.Induction

/-! Sessions: a compiler that names are declared to, lookups added to and subtables changed in, with compilations in
between that may fail. Names keep their numbers, and bytes that a subtable has were made from it at an earlier
compilation or came with its lookup, since when it has not changed. -/
namespace Kashida

/-- What a session can do to a compiler. A lookup may have bytes when it is added. -/
inductive SessionStep where
  | declare (kind : TableKind) (name : String)
  | add (lookup : Lookup)
  | push (kind : TableKind) (name : String) (subtable : Subtable)
  | change (kind : TableKind) (name : String) (index : Nat) (change : Subtable → Subtable)
  | compile

namespace Compiler

/-- The compiler after a step; a lookup or subtable that is not there leaves it as it is. -/
def take (compiler : Compiler) : SessionStep → Compiler
  | .declare kind name => (compiler.declare kind name).2
  | .add lookup => (compiler.add lookup).2
  | .push kind name subtable => ((compiler.push? kind name subtable).map Prod.snd).getD compiler
  | .change kind name index change =>
      ((compiler.updateSubtable? kind name index fun subtable => ((), change subtable)).map Prod.snd).getD compiler
  | .compile => compiler.compile.2

/-- The compiler after a session that starts with nothing but a font. -/
def session (font : Font) (steps : List SessionStep) : Compiler := steps.foldl take (ofFont font)

theorem session_concat (font : Font) (steps : List SessionStep) (step : SessionStep) :
    session font (steps ++ [step]) = (session font steps).take step := List.foldl_concat ..

end Compiler

namespace LookupTable

/-- The name of a lookup and one of its slots, by their numbers. -/
def slot? (table : LookupTable) (number : UInt16) (index : Nat) : Option (String × LookupSlot) :=
  table.lookups[number]?.bind fun lookup => lookup.slots[index]?.map fun slot => (lookup.name, slot)

theorem exists_slot? {table : LookupTable} {number : UInt16} {lookup : Lookup} {slot : LookupSlot}
    (found : table.lookups[number]? = some lookup) (member : slot ∈ lookup.slots)
    (cached : slot.encoded = some content) :
    ∃ index, table.slot? number index = some (lookup.name, ⟨slot.subtable, some content⟩) := by
  obtain ⟨index, atIndex⟩ := List.mem_iff_getElem?.mp member
  exact ⟨index, by rw [slot?, found, Option.bind_some, atIndex, Option.map_some, ← cached]⟩

/-- Names are those of the list, and every lookup stands under the number of its name. -/
structure Orderly (kind : TableKind) (listed : List String) (table : LookupTable) : Prop where
  lists : table.names.Lists listed
  named : ∀ (number : UInt16) (lookup : Lookup), table.lookups[number]? = some lookup →
    listed[number.toNat]? = some lookup.name ∧ lookup.kind.table = kind

end LookupTable

/-- How a step gives a slot its bytes: a compilation makes them from the subtable that is there without any, and a
lookup that is added brings them. -/
inductive SessionStep.Supplies (font : Font) (kind : TableKind) (before : LookupTable) (sets : DeltaSets)
    (number : UInt16) (index : Nat) (owner : String) (subtable : Subtable) (bytes : List UInt8) : SessionStep → Prop
  | made (empty : before.slot? number index = some (owner, ⟨subtable, none⟩))
      (encodes : subtable.Encodes font before.names owner sets bytes) :
      Supplies font kind before sets number index owner subtable bytes .compile
  | brought {lookup : Lookup} (ofKind : lookup.kind.table = kind) (named : lookup.name = owner)
      (has : lookup.slots[index]? = some ⟨subtable, some bytes⟩) :
      Supplies font kind before sets number index owner subtable bytes (.add lookup)

theorem SessionStep.Supplies.mono {early late : DeltaSets} {table : LookupTable} {step : SessionStep}
    (supplies : step.Supplies font kind table early number index owner subtable bytes) (grown : early.Extends late) :
    step.Supplies font kind table late number index owner subtable bytes := by
  cases supplies with
  | made empty encodes => exact .made empty (encodes.mono grown)
  | brought ofKind named has => exact .brought ofKind named has

namespace LookupTable

/-- What a step can do to a table: names are put behind those that are there, and bytes are there before or come by the
step. -/
structure Follows (font : Font) (kind : TableKind) (sets : DeltaSets) (step : SessionStep)
    (before after : LookupTable) : Prop where
  orderly : ∀ listed, before.Orderly kind listed → ∃ more, after.Orderly kind (listed ++ more)
  slots : ∀ {number index owner subtable bytes},
    after.slot? number index = some (owner, ⟨subtable, some bytes⟩) →
      before.slot? number index = some (owner, ⟨subtable, some bytes⟩) ∨
      step.Supplies font kind before sets number index owner subtable bytes

theorem Follows.refl (table : LookupTable) : Follows font kind sets step table table :=
  ⟨fun listed orderly => ⟨[], by rwa [List.append_nil]⟩, .inl⟩

theorem slot?_put (table : LookupTable) (number : UInt16) (lookup : Lookup) (other : UInt16) (index : Nat) :
    (table.put number lookup).slot? other index =
      if number = other then lookup.slots[index]?.map fun slot => (lookup.name, slot) else table.slot? other index := by
  simp only [slot?, put, Std.TreeMap.getElem?_insert, Std.LawfulEqOrd.compare_eq_iff_eq]
  split <;> rfl

theorem Orderly.put {table : LookupTable} (orderly : table.Orderly kind listed)
    (named : listed[number.toNat]? = some lookup.name) (sameKind : lookup.kind.table = kind) :
    (table.put number lookup).Orderly kind listed := by
  refine ⟨orderly.lists, ?_⟩
  intro other there found
  rw [LookupTable.put, Std.TreeMap.getElem?_insert] at found
  split at found
  · rename_i same
    cases Std.LawfulEqOrd.eq_of_compare same
    cases found
    exact ⟨named, sameKind⟩
  · exact orderly.named other there found

theorem Orderly.entry {table : LookupTable} {number : UInt16} {lookup : Lookup} (orderly : table.Orderly kind listed)
    (found : table.lookups[number]? = some lookup) :
    table.names.toList[number.toNat]? = some (number.toNat, lookup.name) := by
  obtain ⟨bound, isName⟩ := List.getElem?_eq_some_iff.mp (orderly.named number lookup found).1
  rw [orderly.lists.entry bound, isName]

/-- The bytes of a lookup stand at its number. -/
theorem Orderly.gives {table : LookupTable} {number : UInt16} {lookup : Lookup} {lookups : List (List UInt8)}
    (orderly : table.Orderly kind listed) (gives : table.Gives table.names.toList lookups)
    (found : table.lookups[number]? = some lookup) :
    ∃ bytes, lookups[number.toNat]? = some bytes ∧ lookup.Settled bytes := by
  obtain ⟨bytes, atNumber, there, same, settled⟩ := exists_getElem?_of_forall₂ gives (orderly.entry found)
  rw [UInt16.ofNat_toNat, found] at same
  cases same
  exact ⟨bytes, atNumber, settled⟩

theorem Orderly.register {table : LookupTable} {names : LookupNames} (orderly : table.Orderly kind listed)
    (step : table.names.register kind name = (outcome, names)) :
    ∃ more, Orderly kind (listed ++ more) { table with names } ∧
      ∀ number, outcome = .ok number → (listed ++ more)[number.toNat]? = some name := by
  rcases LookupNames.register_lists orderly.lists step with
    ⟨_, rfl, number, rfl, there⟩ | ⟨_, lists, number, rfl, atEnd⟩ | ⟨_, rfl, _, rfl⟩
  · refine ⟨[], by rwa [List.append_nil], ?_⟩
    intro other same
    cases same
    rwa [List.append_nil]
  · refine ⟨[name], ⟨lists, ?_⟩, ?_⟩
    · intro other lookup found
      obtain ⟨named, sameKind⟩ := orderly.named other lookup found
      have bound := (List.getElem?_eq_some_iff.mp named).1
      exact ⟨by rw [List.getElem?_append_left bound, named], sameKind⟩
    · intro other same
      cases same
      rw [atEnd, List.getElem?_concat_length]
  · exact ⟨[], by rwa [List.append_nil], fun number same => by cases same⟩

theorem register_follows {table : LookupTable} {names : LookupNames}
    (registering : table.names.register kind name = (outcome, names)) :
    Follows font kind sets step table { table with names } := by
  refine ⟨?_, .inl⟩
  intro listed orderly
  obtain ⟨more, next, _⟩ := orderly.register registering
  exact ⟨more, next⟩

theorem add_follows {table : LookupTable} {names : LookupNames} {lookup : Lookup}
    (registering : table.names.register lookup.kind.table lookup.name = (.ok number, names)) :
    Follows font lookup.kind.table sets (.add lookup) table
      (LookupTable.put { table with names } number lookup) := by
  refine ⟨?_, ?_⟩
  · intro listed orderly
    obtain ⟨more, next, place⟩ := orderly.register registering
    exact ⟨more, next.put (place number rfl) rfl⟩
  · intro other index owner subtable bytes found
    rw [slot?_put] at found
    split at found
    · -- The lookup has the bytes that it is added with, whatever it replaces.
      obtain ⟨slot, atIndex, same⟩ := Option.map_eq_some_iff.mp found
      cases same
      exact .inr (.brought rfl rfl atIndex)
    · exact .inl found

/-- A lookup in the place of one with the same name, with no bytes but those that were there. -/
theorem put_follows {table : LookupTable} {number : UInt16} {lookup next : Lookup}
    (found : table.lookups[number]? = some lookup) (sameName : next.name = lookup.name)
    (sameKind : next.kind = lookup.kind) (kept : ∀ (index : Nat) (subtable : Subtable) (bytes : List UInt8),
      next.slots[index]? = some ⟨subtable, some bytes⟩ → lookup.slots[index]? = some ⟨subtable, some bytes⟩) :
    Follows font kind sets step table (table.put number next) := by
  refine ⟨?_, ?_⟩
  · intro listed orderly
    obtain ⟨named, ofKind⟩ := orderly.named number lookup found
    refine ⟨[], ?_⟩
    rw [List.append_nil]
    exact orderly.put (sameName ▸ named) (sameKind ▸ ofKind)
  · intro other index owner subtable bytes there
    rw [slot?_put] at there
    split at there
    · rename_i same
      subst same
      obtain ⟨slot, atIndex, same⟩ := Option.map_eq_some_iff.mp there
      cases same
      refine .inl ?_
      rw [slot?, found, Option.bind_some, kept index subtable bytes atIndex, Option.map_some, sameName]
    · exact .inl there

theorem Reencoded.follows {before after : LookupTable} (reencoded : Reencoded font sets before after) :
    Follows font kind sets .compile before after := by
  refine ⟨?_, ?_⟩
  · intro listed orderly
    refine ⟨[], ?_⟩
    rw [List.append_nil]
    refine ⟨reencoded.names ▸ orderly.lists, ?_⟩
    intro number next there
    have related := reencoded.lookups number
    rw [there] at related
    generalize found : before.lookups[number]? = old at related
    cases related with
    | some same =>
      have named := orderly.named number _ found
      obtain ⟨slots, rfl, _⟩ := same
      exact named
  · intro number index owner subtable bytes there
    simp only [slot?, Option.bind_eq_some_iff, Option.map_eq_some_iff] at there
    obtain ⟨next, atNumber, slot, atIndex, same⟩ := there
    cases same
    have related := reencoded.lookups number
    rw [atNumber] at related
    generalize found : before.lookups[number]? = old at related
    cases related with
    | some same =>
      obtain ⟨slots, rfl, each⟩ := same
      obtain ⟨first, atFirst, encoded⟩ := exists_getElem?_of_forall₂ each.flip atIndex
      cases encoded with
      | kept => exact .inl (by simp only [slot?, found, Option.bind_some, atFirst, Option.map_some])
      | made made =>
        exact .inr (.made (by simp only [slot?, found, Option.bind_some, atFirst, Option.map_some]) made)

end LookupTable

namespace Compiler

theorem table_setTable (compiler : Compiler) (kind : TableKind) (table : LookupTable) (other : TableKind) :
    (compiler.setTable kind table).table other = if kind = other then table else compiler.table other := by
  cases kind <;> cases other <;> rfl

theorem font_setTable (compiler : Compiler) (kind : TableKind) (table : LookupTable) :
    (compiler.setTable kind table).font = compiler.font := by
  cases kind <;> rfl

theorem sets_setTable (compiler : Compiler) (kind : TableKind) (table : LookupTable) :
    (compiler.setTable kind table).sets = compiler.sets := by
  cases kind <;> rfl

theorem setTable_setTable (compiler : Compiler) (kind : TableKind) (table other : LookupTable) :
    (compiler.setTable kind table).setTable kind other = compiler.setTable kind other := by
  cases kind <;> rfl

/-- What a step can do to a compiler. -/
structure Follows (step : SessionStep) (before after : Compiler) : Prop where
  font : after.font = before.font
  valid : after.sets.Valid
  grown : before.sets.Extends after.sets
  tables : ∀ kind, LookupTable.Follows before.font kind after.sets step (before.table kind) (after.table kind)

theorem Follows.refl {compiler : Compiler} (valid : compiler.sets.Valid) : Follows step compiler compiler :=
  ⟨rfl, valid, .refl _, fun _ => .refl _⟩

theorem setTable_follows {compiler : Compiler} {kind : TableKind} {table : LookupTable} (valid : compiler.sets.Valid)
    (follows : LookupTable.Follows compiler.font kind compiler.sets step (compiler.table kind) table) :
    Follows step compiler (compiler.setTable kind table) := by
  refine ⟨compiler.font_setTable kind table, ?_, ?_, ?_⟩
  · rwa [sets_setTable]
  · rw [sets_setTable]
    exact .refl _
  · intro other
    rw [table_setTable, sets_setTable]
    split
    · rename_i same
      exact same ▸ follows
    · exact .refl _

theorem declare_follows {compiler : Compiler} (valid : compiler.sets.Valid) (kind : TableKind) (name : String) :
    Follows step compiler (compiler.declare kind name).2 :=
  setTable_follows valid (LookupTable.register_follows rfl)

theorem add_eq (compiler : Compiler) (lookup : Lookup) :
    (compiler.add lookup).2 =
      match (compiler.table lookup.kind.table).names.register lookup.kind.table lookup.name with
      | (.error _, names) =>
          compiler.setTable lookup.kind.table { compiler.table lookup.kind.table with names }
      | (.ok number, names) => compiler.setTable lookup.kind.table
          (LookupTable.put { compiler.table lookup.kind.table with names } number lookup) := by
  simp only [add, declare]
  generalize (compiler.table lookup.kind.table).names.register lookup.kind.table lookup.name = registered
  obtain ⟨outcome, names⟩ := registered
  cases outcome with
  | error error => rfl
  | ok number => simp only [Except.mapError, table_setTable, if_true, setTable_setTable]

theorem add_follows {compiler : Compiler} (valid : compiler.sets.Valid) (lookup : Lookup) :
    Follows (.add lookup) compiler (compiler.add lookup).2 := by
  rw [add_eq]
  split
  · rename_i registering
    exact setTable_follows valid (LookupTable.register_follows registering)
  · rename_i registering
    exact setTable_follows valid (LookupTable.add_follows registering)

theorem updateLookup?_parts {compiler next : Compiler} {change : Lookup → Option (α × Lookup)}
    (step : compiler.updateLookup? kind name change = some (answer, next)) : ∃ number lookup changed,
      (compiler.table kind).names.number? name = some number ∧
      (compiler.table kind).lookups[number]? = some lookup ∧ change lookup = some (answer, changed) ∧
      next = compiler.setTable kind ((compiler.table kind).put number changed) := by
  simp only [updateLookup?, Option.bind_eq_bind, Option.bind_eq_some_iff, Option.pure_def, Option.some.injEq,
    Prod.mk.injEq] at step
  obtain ⟨number, isNumber, lookup, found, ⟨_, changed⟩, changing, rfl, rfl⟩ := step
  exact ⟨number, lookup, changed, isNumber, found, changing, rfl⟩

/-- A change of one lookup that keeps its name and its kind and makes no bytes. -/
theorem updateLookup?_follows {compiler next : Compiler} {change : Lookup → Option (α × Lookup)}
    (valid : compiler.sets.Valid)
    (keeps : ∀ lookup answer changed, change lookup = some (answer, changed) →
      changed.name = lookup.name ∧ changed.kind = lookup.kind ∧
        ∀ (index : Nat) (subtable : Subtable) (bytes : List UInt8),
          changed.slots[index]? = some ⟨subtable, some bytes⟩ → lookup.slots[index]? = some ⟨subtable, some bytes⟩)
    (updating : compiler.updateLookup? kind name change = some (answer, next)) : Follows step compiler next := by
  obtain ⟨number, lookup, changed, _, found, changing, rfl⟩ := updateLookup?_parts updating
  obtain ⟨sameName, sameKind, kept⟩ := keeps lookup answer changed changing
  exact setTable_follows valid (LookupTable.put_follows found sameName sameKind kept)

theorem push?_follows {compiler next : Compiler} (valid : compiler.sets.Valid)
    (pushing : compiler.push? kind name subtable = some (answer, next)) : Follows step compiler next := by
  refine updateLookup?_follows valid ?_ pushing
  intro lookup answer changed changing
  simp only [Lookup.push] at changing
  split at changing
  · rename_i pushed pushing
    cases changing
    split at pushing
    · cases pushing
      refine ⟨rfl, rfl, ?_⟩
      intro index other bytes found
      rw [List.getElem?_append] at found
      split at found
      · exact found
      · rw [List.getElem?_singleton] at found
        split at found <;> cases found
    · cases pushing
  · cases changing
    exact ⟨rfl, rfl, fun _ _ _ found => found⟩

theorem updateSubtable?_follows {compiler next : Compiler} {change : Subtable → α × Subtable}
    (valid : compiler.sets.Valid) (updating : compiler.updateSubtable? kind name index change = some (answer, next)) :
    Follows step compiler next := by
  refine updateLookup?_follows valid ?_ updating
  intro lookup answer changed changing
  obtain ⟨slot, _, same⟩ := Option.map_eq_some_iff.mp changing
  cases same
  refine ⟨rfl, rfl, ?_⟩
  intro other subtable bytes found
  rw [List.getElem?_set] at found
  split at found
  · split at found <;> cases found
  · exact found

theorem Recompiled.follows {before after : Compiler} (recompiled : Recompiled before after) :
    Follows .compile before after :=
  ⟨recompiled.font, recompiled.valid, recompiled.grown, fun kind => (recompiled.tables kind).follows⟩

theorem take_follows {compiler : Compiler} (valid : compiler.sets.Valid) (step : SessionStep) :
    Follows step compiler (compiler.take step) := by
  cases step with
  | declare kind name => exact declare_follows valid kind name
  | add lookup => exact add_follows valid lookup
  | push kind name subtable =>
    cases pushing : compiler.push? kind name subtable with
    | none =>
      rw [take, pushing]
      exact .refl valid
    | some result =>
      rw [take, pushing]
      exact push?_follows valid pushing
  | change kind name index change =>
    cases changing : compiler.updateSubtable? kind name index fun subtable => ((), change subtable) with
    | none =>
      rw [take, changing]
      exact .refl valid
    | some result =>
      rw [take, changing]
      exact updateSubtable?_follows valid changing
  | compile => exact (compile_recompiled valid).follows

/-- A slot with these bytes, at the end of a session and ever since its first `since` steps. -/
def HeldSince (font : Font) (since after : List SessionStep) (kind : TableKind) (number : UInt16) (index : Nat)
    (owner : String) (subtable : Subtable) (bytes : List UInt8) : Prop :=
  ∀ part, part <+: after →
    ((session font (since ++ part)).table kind).slot? number index = some (owner, ⟨subtable, some bytes⟩)

/-- What every session keeps. -/
structure Sound (font : Font) (steps : List SessionStep) : Prop where
  sameFont : (session font steps).font = font
  valid : (session font steps).sets.Valid
  grown : font.deltaSets.Extends (session font steps).sets
  orderly : ∀ kind, ∃ listed, ((session font steps).table kind).Orderly kind listed
  /-- Bytes have been there since a step that supplied them. -/
  traced : ∀ {kind number index owner subtable bytes},
    ((session font steps).table kind).slot? number index = some (owner, ⟨subtable, some bytes⟩) →
      ∃ since step after, steps = since ++ step :: after ∧
        HeldSince font (since ++ [step]) after kind number index owner subtable bytes ∧
        step.Supplies font kind ((session font since).table kind) (session font steps).sets number index owner
          subtable bytes

theorem table_ofFont (font : Font) (kind : TableKind) : (ofFont font).table kind = {} := by
  cases kind <;> rfl

theorem sound_nil (font : Font) : Sound font [] := by
  refine ⟨rfl, .initial _ _, .refl _, ?_, ?_⟩
  · intro kind
    refine ⟨[], ?_⟩
    rw [session, List.foldl_nil, table_ofFont]
    refine ⟨LookupNames.lists_empty, fun number lookup found => ?_⟩
    rw [Std.TreeMap.getElem?_emptyc] at found
    cases found
  · intro kind number index owner subtable bytes found
    rw [session, List.foldl_nil, table_ofFont, LookupTable.slot?, Std.TreeMap.getElem?_emptyc] at found
    cases found

theorem Sound.concat {font : Font} {steps : List SessionStep} (sound : Sound font steps) (step : SessionStep) :
    Sound font (steps ++ [step]) := by
  have follows := take_follows sound.valid step
  rw [← session_concat] at follows
  refine ⟨follows.font.trans sound.sameFont, follows.valid, sound.grown.trans follows.grown, ?_, ?_⟩
  · intro kind
    obtain ⟨listed, orderly⟩ := sound.orderly kind
    obtain ⟨more, next⟩ := (follows.tables kind).orderly listed orderly
    exact ⟨_, next⟩
  · intro kind number index owner subtable bytes found
    rcases (follows.tables kind).slots found with old | supplies
    · -- Bytes of before the step have been there one step longer.
      obtain ⟨since, origin, after, rfl, held, supplies⟩ := sound.traced old
      refine ⟨since, origin, after ++ [step], List.append_assoc .., ?_, supplies.mono follows.grown⟩
      intro part isPart
      rcases List.prefix_concat_iff.mp isPart with rfl | earlier
      · rwa [← List.append_assoc, List.append_assoc since, List.singleton_append]
      · exact held part earlier
    · -- Bytes that came by the step are there since now.
      rw [sound.sameFont] at supplies
      refine ⟨steps, step, [], rfl, ?_, supplies⟩
      intro part isPart
      rw [List.prefix_nil.mp isPart, List.append_nil]
      exact found

theorem session_sound (font : Font) (steps : List SessionStep) : Sound font steps := by
  induction steps using List.reverseRecOn with
  | nil => exact sound_nil font
  | append_singleton steps step ih => exact ih.concat step

theorem session_names_grow (font : Font) (since after : List SessionStep) (kind : TableKind) :
    ∃ listed more, ((session font since).table kind).Orderly kind listed ∧
      ((session font (since ++ after)).table kind).Orderly kind (listed ++ more) := by
  induction after using List.reverseRecOn with
  | nil =>
    obtain ⟨listed, orderly⟩ := (session_sound font since).orderly kind
    exact ⟨listed, [], orderly, by rwa [List.append_nil, List.append_nil]⟩
  | append_singleton after step ih =>
    obtain ⟨listed, more, early, late⟩ := ih
    have follows := take_follows (session_sound font (since ++ after)).valid step
    obtain ⟨further, last⟩ := (follows.tables kind).orderly _ late
    rw [← List.append_assoc, session_concat]
    exact ⟨listed, more ++ further, early, by rwa [← List.append_assoc]⟩

theorem session_grows (font : Font) (since steps : List SessionStep) :
    (session font since).sets.Extends (session font (since ++ steps)).sets := by
  induction steps using List.reverseRecOn with
  | nil =>
    rw [List.append_nil]
    exact .refl _
  | append_singleton steps step ih =>
    rw [← List.append_assoc, session_concat]
    exact ih.trans (take_follows (session_sound font (since ++ steps)).valid step).grown

theorem session_compile (font : Font) (steps : List SessionStep) :
    Recompiled (session font steps) (session font (steps ++ [.compile])) ∧ ∀ compiled,
      (session font steps).compile.1 = .ok compiled → (session font (steps ++ [.compile])).Gives compiled := by
  rw [session_concat]
  have step : (session font steps).compile = ((session font steps).compile.1, (session font steps).compile.2) := rfl
  exact compile_spec (session_sound font steps).valid step

end Compiler

end Kashida
