import Kashida.Proofs.Caching
import Mathlib.Data.List.Nodup

/-! References between lookups. Lookups are compiled in the order of their numbers, so the numbers that contexts refer
to are the places of the compiled lookups, also where bytes were kept while more names were registered. Bytes that a
lookup brings from another compiler refer to places there. -/
namespace Kashida

namespace LookupTable

/-- The lookups numbered below this are there and encode, one after the other, from these delta sets to those. -/
inductive EncodesBelow (font : Font) (table : LookupTable) (sets : DeltaSets) : Nat → DeltaSets → Prop
  | zero : EncodesBelow font table sets 0 sets
  | next {number : Nat} {middle after : DeltaSets} {lookup changed : Lookup} {bytes : List UInt8}
      (earlier : EncodesBelow font table sets number middle)
      (found : table.lookups[UInt16.ofNat number]? = some lookup)
      (encoded : lookup.encode font table.names middle = (.ok bytes, changed, after)) :
      EncodesBelow font table sets (number + 1) after

/-- The result of an encoding, behind the bytes of earlier lookups. -/
def behind (bytes : List (List UInt8)) (result : Except CompileError (List (List UInt8)) × LookupTable × DeltaSets) :
    Except CompileError (List (List UInt8)) × LookupTable × DeltaSets :=
  (result.1.map (bytes ++ ·), result.2)

theorem behind_nil (result : Except CompileError (List (List UInt8)) × LookupTable × DeltaSets) :
    behind [] result = result := by
  obtain ⟨outcome, others⟩ := result
  cases outcome <;> rfl

theorem behind_behind (front bytes : List (List UInt8))
    (result : Except CompileError (List (List UInt8)) × LookupTable × DeltaSets) :
    behind front (behind bytes result) = behind (front ++ bytes) result := by
  obtain ⟨outcome, others⟩ := result
  cases outcome with
  | error error => rfl
  | ok lookups => simp only [behind, Except.map, List.append_assoc]

theorem encodeFrom_cons {table : LookupTable} {number : Nat} {lookup changed : Lookup}
    (found : table.lookups[UInt16.ofNat number]? = some lookup)
    (encoded : lookup.encode font table.names sets = (.ok bytes, changed, after)) (kind : TableKind) (name : String)
    (rest : List (Nat × String)) :
    table.encodeFrom font kind ((number, name) :: rest) sets =
      behind [bytes] ((table.put (.ofNat number) changed).encodeFrom font kind rest after) := by
  rw [encodeFrom, found]
  simp only [encoded]
  generalize (table.put (.ofNat number) changed).encodeFrom font kind rest after = result
  obtain ⟨outcome, others⟩ := result
  cases outcome <;> rfl

/-- An encoding goes on behind the lookups that encode, with the others as they were. -/
theorem EncodesBelow.encodeFrom_eq {table : LookupTable} (below : table.EncodesBelow font sets number after)
    (lists : table.names.Lists listed) (within : number ≤ listed.length) (kind : TableKind) :
    ∃ (bytes : List (List UInt8)) (next : LookupTable), next.names = table.names ∧
      (∀ other : UInt16, number ≤ other.toNat → next.lookups[other]? = table.lookups[other]?) ∧
      ∀ rest, table.encodeFrom font kind (table.names.toList.take number ++ rest) sets =
        behind bytes (next.encodeFrom font kind rest after) := by
  induction below with
  | zero => exact ⟨[], table, rfl, fun _ _ => rfl, fun rest => (behind_nil _).symm⟩
  | @next number middle after lookup changed bytes earlier found encoded ih =>
    obtain ⟨front, next, names, kept, encoding⟩ := ih (Nat.le_of_succ_le within)
    have small := lists.toNat_ofNat within
    have entry := lists.entry within
    rw [← kept _ (Nat.le_of_eq small.symm)] at found
    rw [← names] at encoded
    refine ⟨front ++ [bytes], next.put (.ofNat number) changed, names, ?_, fun rest => ?_⟩
    · intro other above
      rw [put, Std.TreeMap.getElem?_insert, if_neg, kept other (Nat.le_of_succ_le above)]
      rw [Std.LawfulEqOrd.compare_eq_iff_eq]
      rintro rfl
      omega
    · rw [List.take_add_one, entry, Option.toList_some, List.append_assoc, List.singleton_append, encoding,
        encodeFrom_cons found encoded, behind_behind]

/-- The first name without a lookup ends the encoding of a table. -/
theorem EncodesBelow.encode_missing {table : LookupTable} (below : table.EncodesBelow font sets number after)
    (lists : table.names.Lists listed) (named : listed[number]? = some name)
    (missing : table.lookups[UInt16.ofNat number]? = none) (kind : TableKind) :
    (table.encode font kind sets).1 = .error (.resolve (.unknownLookup kind.text name)) := by
  obtain ⟨bound, isName⟩ := List.getElem?_eq_some_iff.mp named
  have small := lists.toNat_ofNat bound
  obtain ⟨entryBound, entry⟩ := List.getElem?_eq_some_iff.mp (lists.entry bound)
  obtain ⟨bytes, next, _, kept, encoding⟩ := below.encodeFrom_eq lists (Nat.le_of_lt bound) kind
  rw [encode, ← List.take_append_drop number table.names.toList, encoding, List.drop_eq_getElem_cons entryBound, entry,
    encodeFrom, kept _ (Nat.le_of_eq small.symm), missing, isName]
  rfl

theorem EncodesBelow.encode_all {table : LookupTable}
    (below : table.EncodesBelow font sets table.names.size after) (lists : table.names.Lists listed)
    (kind : TableKind) : ∃ bytes next, table.encode font kind sets = (.ok bytes, next, after) := by
  obtain ⟨bytes, next, _, _, encoding⟩ := below.encodeFrom_eq lists (Nat.le_of_eq lists.size) kind
  have all : table.names.toList.take table.names.size ++ [] = table.names.toList := by
    rw [List.append_nil, List.take_of_length_le]
    exact Nat.le_of_eq Std.TreeMap.length_toList
  refine ⟨bytes, next, ?_⟩
  rw [encode, ← all, encoding]
  simp [behind, encodeFrom, Except.map]

theorem find?_eq {table : LookupTable} (lists : table.names.Lists listed) (named : listed[number]? = some name) :
    table.find? name = table.lookups[UInt16.ofNat number]? := by
  have small := lists.toNat_ofNat (List.getElem?_eq_some_iff.mp named).1
  have isNumber := (lists.numbers name (.ofNat number)).mpr (by rwa [small])
  simp only [find?, isNumber, Option.bind_eq_bind, Option.bind_some]

end LookupTable

/-- The actions of the contexts in the bytes of a lookup refer to these names by their places. -/
def Lookup.RefersTo (names : List String) (lookup : Lookup) (bytes : List UInt8) : Prop :=
  ∀ index context, lookup.subtable? index = some (.chaining context) → ∃ scope stored,
    Lookup.subtableScope bytes index = .ok (some scope) ∧ StoredContext.read scope = .ok stored ∧
    List.Forall₂ (fun action result => result.1 = action.position ∧ result.2.toNat < names.length ∧
      (names[result.2.toNat]? = some (lookup.name ++ "." ++ action.lookup) ∨
        names[result.2.toNat]? = some action.lookup)) context.actions stored.actions

namespace Compiler

/-- All lookups that are compiled before the one of this number encode; those of the substitution table come first. -/
def EncodesBefore (compiler : Compiler) : TableKind → Nat → Prop
  | .substitution, number => ∃ after, compiler.substitution.EncodesBelow compiler.font compiler.sets number after
  | .positioning, number => ∃ middle after,
      compiler.substitution.EncodesBelow compiler.font compiler.sets compiler.substitution.names.size middle ∧
      compiler.positioning.EncodesBelow compiler.font middle number after

theorem compile_missing {compiler : Compiler} {listed : TableKind → List String}
    (lists : ∀ kind, (compiler.table kind).names.Lists (listed kind)) (earlier : compiler.EncodesBefore kind number)
    (named : (listed kind)[number]? = some name)
    (missing : (compiler.table kind).lookups[UInt16.ofNat number]? = none) :
    compiler.compile.1 = .error (.resolve (.unknownLookup kind.text name)) := by
  cases kind with
  | substitution =>
    obtain ⟨after, below⟩ := earlier
    have failing := below.encode_missing (lists .substitution) named missing .substitution
    rw [compile]
    generalize compiler.substitution.encode compiler.font .substitution compiler.sets = result at failing ⊢
    obtain ⟨outcome, substitution, sets⟩ := result
    cases failing
    rfl
  | positioning =>
    obtain ⟨middle, after, all, below⟩ := earlier
    obtain ⟨bytes, substitution, encoding⟩ := all.encode_all (lists .substitution) .substitution
    have failing := below.encode_missing (lists .positioning) named missing .positioning
    rw [compile]
    simp only [encoding]
    generalize compiler.positioning.encode compiler.font .positioning middle = result at failing ⊢
    obtain ⟨outcome, positioning, sets⟩ := result
    cases failing
    rfl

/-- The bytes are put together from those of the subtables of a lookup. Each of these was encoded at some time of the
session, with the names of that time, or had its bytes when the lookup was added. -/
def Holds (font : Font) (steps : List SessionStep) (kind : TableKind) (lookup : Lookup) (bytes : List UInt8) : Prop :=
  ∃ contents, lookup.assemble contents = .ok bytes ∧
    List.Forall₂ (fun slot content =>
      (∃ since, since <+: steps ∧ slot.subtable.Encodes font ((session font since).table kind).names lookup.name
        (session font steps).sets content) ∨
      Brought steps kind lookup.name slot.subtable content) lookup.slots contents

variable {font : Font} {steps : List SessionStep} {kind : TableKind} {number : UInt16} {lookup : Lookup}

theorem holds_of_settled (found : ((session font steps).table kind).lookups[number]? = some lookup)
    (settled : lookup.Settled bytes) : Holds font steps kind lookup.withoutBytes bytes := by
  obtain ⟨contents, all, assembled⟩ := settled
  refine ⟨contents, assembled, List.forall₂_map_left_iff.mpr ?_⟩
  have paired := (List.forall₂_and_left _ _).mpr ⟨fun slot member => member, map_eq_map_iff.mp all⟩
  refine paired.imp ?_
  rintro slot content ⟨member, cached⟩
  obtain ⟨index, there⟩ := LookupTable.exists_slot? found member cached
  exact (made_or_brought there).imp_left Made.encodes

theorem refersTo_of_settled (found : ((session font steps).table kind).lookups[number]? = some lookup)
    (own : OwnBytes font steps kind lookup.name) (settled : lookup.Settled bytes) :
    lookup.withoutBytes.RefersTo (registered kind steps) bytes := by
  intro index context isContext
  simp only [Lookup.subtable?, Lookup.withoutBytes, List.getElem?_map, Option.map_map, Option.map_eq_some_iff,
    Function.comp_apply] at isContext
  obtain ⟨⟨subtable, encoded⟩, atIndex, rfl⟩ := isContext
  obtain ⟨content, origin, back, rfl, scope⟩ := settled.scope atIndex
  have there : ((session font steps).table kind).slot? number index =
      some (lookup.name, ⟨.chaining context, some content⟩) := by
    rw [LookupTable.slot?, found, Option.bind_some, atIndex, Option.map_some]
  obtain ⟨since, ⟨after, rfl⟩, before, _, _, made, _⟩ := (own.made there).encodes
  have written : context.encode ((session font since).table kind).names lookup.name = .ok content :=
    congrArg Prod.fst made
  obtain ⟨stored, actions, isRead, stores, invokes⟩ := ChainedContext.read_encode written origin back
  refine ⟨_, stored, scope, isRead, ?_⟩
  rw [stores.actions]
  refine List.Forall₂.imp ?_ invokes
  rintro action ⟨position, target⟩ ⟨samePosition, stands⟩
  -- Names that were registered when the bytes were made have kept their places.
  have kept : ∀ {name}, ((session font since).table kind).names.number? name = some target →
      (registered kind (since ++ after))[target.toNat]? = some name := by
    intro name isNumber
    have named := ((session_lists font since kind).numbers name target).mp isNumber
    obtain ⟨more, whole⟩ := registered_grows kind since after
    rw [← whole, List.getElem?_append_left (List.getElem?_eq_some_iff.mp named).1, named]
  rcases stands with within | ⟨_, bare⟩
  · exact ⟨samePosition, (List.getElem?_eq_some_iff.mp (kept within)).1, .inl (kept within)⟩
  · exact ⟨samePosition, (List.getElem?_eq_some_iff.mp (kept bare)).1, .inr (kept bare)⟩

/-- A table that is full gives no number to another name. -/
theorem declare_full {font : Font} {steps : List SessionStep} {kind : TableKind} {name : String}
    (full : (registered kind steps).length = 65536) (unknown : name ∉ registered kind steps) :
    ((session font steps).declare kind name).1 = .error (.resolve (.unknownLookup kind.text name)) := by
  rw [declare]
  generalize registering : ((session font steps).table kind).names.register kind name = result
  obtain ⟨outcome, names⟩ := result
  rcases LookupNames.register_lists (session_lists font steps kind) registering with
    ⟨known, _⟩ | ⟨_, lists, _⟩ | ⟨_, _, _, refused⟩
  · exact absurd known unknown
  · have counted := lists.counted
    rw [List.length_append, List.length_singleton] at counted
    omega
  · rw [refused]
    rfl

theorem add_full {font : Font} {steps : List SessionStep} {lookup : Lookup}
    (full : (registered lookup.kind.table steps).length = 65536)
    (unknown : lookup.name ∉ registered lookup.kind.table steps) :
    ((session font steps).add lookup).1 = .error (.resolve (.unknownLookup lookup.kind.table.text lookup.name)) := by
  have refused := @declare_full font steps lookup.kind.table lookup.name full unknown
  rw [add]
  generalize (session font steps).declare lookup.kind.table lookup.name = result at refused ⊢
  obtain ⟨outcome, compiler⟩ := result
  cases refused
  rfl

/-- Compiled lookups are those of the registered names, in their order. -/
theorem compiled_latest (success : (session font steps).compile.1 = .ok compiled) (kind : TableKind) :
    List.Forall₂ (fun name bytes => ∃ (number : UInt16) (lookup : Lookup),
      ((session font (steps ++ [.compile])).table kind).lookups[number]? = some lookup ∧ lookup.Settled bytes ∧
      latest kind name steps = some lookup.withoutBytes ∧ lookup.name = name ∧ lookup.kind.table = kind)
      (registered kind steps) (compiled.lookups kind) := by
  have orderly := session_orderly font (steps ++ [.compile]) kind
  have sameNames : registered kind (steps ++ [.compile]) = registered kind steps := registered_idle rfl steps
  have gives := ((session_compile font steps).2 compiled success).lookups kind
  rw [← sameNames, ← orderly.lists.map_snd_toList, List.forall₂_map_left_iff]
  refine ((List.forall₂_and_left _ _).mpr ⟨fun entry member => member, gives⟩).imp ?_
  rintro ⟨number, name⟩ bytes ⟨member, lookup, found, settled⟩
  have named : (registered kind (steps ++ [.compile]))[number]? = some name := by
    rw [← orderly.lists.names]
    exact Std.TreeMap.mem_toList_iff_getElem?_eq_some.mp member
  have isLatest := session_latest font (List.mem_of_getElem? named)
  rw [find?, LookupTable.find?_eq orderly.lists named, found, latest_concat] at isLatest
  obtain ⟨itsName, ofKind⟩ := orderly.named _ lookup found
  rw [orderly.lists.toNat_ofNat (List.getElem?_eq_some_iff.mp named).1, named] at itsName
  exact ⟨_, lookup, found, settled, isLatest.symm, (Option.some.inj itsName).symm, ofKind⟩

end Compiler

/-- Names are numbered in the order of their first registration and keep their numbers; a table that is full refuses
others. A compilation fails at the first of them without a lookup; one that succeeds gives the bytes of the latest
lookup under each name, in the same order. Where these are not brought from elsewhere, the numbers that contexts refer
to are the places of lookups with the names that they use. -/
theorem Compiler.compiled_references_are_places_of_named_lookups (font : Font) (steps : List SessionStep) :
    (∀ kind name, (((session font steps).table kind).names.number? name).map UInt16.toNat =
      (registered kind steps).idxOf? name) ∧
    (∀ kind name, ((session font steps).declare kind name).1.toOption.map UInt16.toNat =
      (registered kind (steps ++ [.declare kind name])).idxOf? name) ∧
    (∀ lookup, ((session font steps).add lookup).1.toOption.map UInt16.toNat =
      (registered lookup.kind.table (steps ++ [.add lookup])).idxOf? lookup.name) ∧
    (∀ kind name, (registered kind steps).length = 65536 → name ∉ registered kind steps →
      ((session font steps).declare kind name).1 = .error (.resolve (.unknownLookup kind.text name))) ∧
    (∀ lookup, (registered lookup.kind.table steps).length = 65536 →
      lookup.name ∉ registered lookup.kind.table steps → ((session font steps).add lookup).1 =
        .error (.resolve (.unknownLookup lookup.kind.table.text lookup.name))) ∧
    (∀ kind more, registered kind steps <+: registered kind (steps ++ more)) ∧
    (∀ kind number name, (registered kind steps)[number]? = some name → latest kind name steps = none →
      (session font steps).EncodesBefore kind number →
        (session font steps).compile.1 = .error (.resolve (.unknownLookup kind.text name))) ∧
    ∀ compiled, (session font steps).compile.1 = .ok compiled → ∀ kind,
      List.Forall₂ (fun name bytes => ∃ lookup, latest kind name steps = some lookup ∧ lookup.name = name ∧
        lookup.kind.table = kind ∧ Holds font (steps ++ [.compile]) kind lookup bytes ∧
        (OwnBytes font steps kind name → lookup.RefersTo (registered kind steps) bytes))
        (registered kind steps) (compiled.lookups kind) := by
  refine ⟨?_, ?_, ?_, fun kind name => declare_full, fun lookup => add_full,
    fun kind more => registered_grows kind steps more, ?_, ?_⟩
  · intro kind name
    exact (session_lists font steps kind).number?_eq_idxOf? name
  · intro kind name
    have lists := session_lists font (steps ++ [.declare kind name]) kind
    rw [declare_number, ← lists.number?_eq_idxOf?, session_concat]
    rfl
  · intro lookup
    have lists := session_lists font (steps ++ [.add lookup]) lookup.kind.table
    rw [← lists.number?_eq_idxOf?, session_concat]
    exact congrArg (Option.map UInt16.toNat) ((session font steps).add_number lookup)
  · intro kind number name named never earlier
    have lists := session_lists font steps
    refine compile_missing lists earlier named ?_
    have missing := session_latest font (List.mem_of_getElem? named)
    rw [never, Option.map_eq_none_iff, find?, LookupTable.find?_eq (lists kind) named] at missing
    exact missing
  · intro compiled success kind
    have sameNames : registered kind (steps ++ [.compile]) = registered kind steps := registered_idle rfl steps
    refine (compiled_latest success kind).imp ?_
    rintro name bytes ⟨number, lookup, found, settled, isLatest, rfl, ofKind⟩
    exact ⟨lookup.withoutBytes, isLatest, rfl, ofKind, holds_of_settled found settled, fun own =>
      sameNames ▸ refersTo_of_settled found own.compile settled⟩

/-- A context is added again with the bytes that it was compiled to, when its scoped name has been registered. -/
def readdedContext : List SessionStep :=
  shadowingSession ++ (Compiler.session stillFont shadowingSession).reuse .substitution "main"

theorem Compiler.compiled_references_are_places_of_named_lookups_of_reused : ∃ compiled bytes lookup,
    (session stillFont readdedContext).compile.1 = .ok compiled ∧
    OwnBytes stillFont readdedContext .substitution "main" ∧ compiled.substitution[0]? = some bytes ∧
    latest .substitution "main" readdedContext = some lookup ∧
    Holds stillFont (readdedContext ++ [.compile]) .substitution lookup bytes ∧
    lookup.RefersTo ["main", "swap", "main.swap"] bytes := by
  have succeeds : (session stillFont readdedContext).compile.1.isOk = true := by decide +kernel
  obtain ⟨compiled, success⟩ := exists_of_isOk succeeds
  have bare : Bare shadowingSession := by simp [Bare, shadowingSession, swappingContext, replacing]
  have own : OwnBytes stillFont readdedContext .substitution "main" := bare.ownBytes.reuse
  have names : registered .substitution readdedContext = ["main", "swap", "main.swap"] := by decide +kernel
  obtain ⟨_, _, _, _, _, _, _, places⟩ := compiled_references_are_places_of_named_lookups stillFont readdedContext
  have each := places compiled success .substitution
  rw [names] at each
  obtain ⟨bytes, atPlace, lookup, isLatest, _, _, holds, refers⟩ := exists_getElem?_of_forall₂ each
    (List.getElem?_cons_zero (a := "main"))
  exact ⟨compiled, bytes, lookup, success, own, atPlace, isLatest, holds, refers own⟩

namespace Compiler

/-- Distinct names are registered as they are declared, as long as there is room. -/
theorem registered_declared (kind : TableKind) {names : List String} (distinct : names.Nodup)
    (room : names.length ≤ 65536) : registered kind (names.map (SessionStep.declare kind)) = names := by
  have empty : ((ofFont stillFont).table kind).names.Lists [] := table_ofFont stillFont kind ▸ LookupNames.lists_empty
  obtain ⟨result, folded, lists⟩ := declareAll_lists empty names distinct room
  have all := session_lists stillFont (names.map (SessionStep.declare kind)) kind
  rw [session, folded, table_setTable, if_pos rfl] at all
  exact all.unique lists

end Compiler

/-- The name made of this many letters. -/
def countedName (count : Nat) : String := String.ofList (List.replicate count 'a')

theorem countedName_injective : Function.Injective countedName := by
  intro one other same
  have letters := congrArg (fun name => name.toList.length) same
  simpa [countedName] using letters

/-- As many names as a table has numbers. -/
def countedNames : List String := (List.range 65536).map countedName

/-- A context that another compiler has compiled, behind two more lookups, is added to a new one. -/
def transferredContext : List SessionStep :=
  (Compiler.session stillFont [.add (replacing "first" 3 4), .add (replacing "swap" 3 4), .add swappingContext,
    .compile]).reuse .substitution "main"

/-- One name more than a table has numbers gets none; and the reference in bytes from another compiler is to a place
that the compiled lookups do not have. -/
theorem Compiler.further_name_and_transferred_reference_have_no_place :
    (registered .substitution (countedNames.map (SessionStep.declare .substitution)) = countedNames ∧
      ((session stillFont (countedNames.map (SessionStep.declare .substitution))).declare .substitution
        (countedName 65536)).1 = .error (.resolve (.unknownLookup "GSUB" (countedName 65536)))) ∧
    ∃ compiled bytes, (session stillFont transferredContext).compile.1 = .ok compiled ∧
      compiled.substitution = [bytes] ∧ registered .substitution transferredContext = ["main"] ∧
      latest .substitution "main" transferredContext = some swappingContext ∧
      ¬swappingContext.RefersTo ["main"] bytes := by
  constructor
  · have distinct : countedNames.Nodup := List.Nodup.map countedName_injective List.nodup_range
    have count : countedNames.length = 65536 := by rw [countedNames, List.length_map, List.length_range]
    have all := registered_declared .substitution distinct (Nat.le_of_eq count)
    refine ⟨all, declare_full (by rw [all, count]) ?_⟩
    rw [all]
    intro member
    obtain ⟨number, inRange, same⟩ := List.mem_map.mp member
    rw [countedName_injective same] at inRange
    exact absurd (List.mem_range.mp inRange) (Nat.lt_irrefl _)
  · have refers : ((session stillFont transferredContext).compile.1.toOption.any fun compiled =>
        compiled.substitution.length == 1 && compiled.substitution[0]?.any fun bytes =>
          (Lookup.subtableScope bytes 0).toOption.any fun found => found.any fun scope =>
            (StoredContext.read scope).toOption.any fun stored => stored.actions == [(0, 1)]) = true := by
      decide +kernel
    have onlyMain : registered .substitution transferredContext = ["main"] := by decide +kernel
    obtain ⟨compiled, success, refers⟩ := exists_of_any refers
    obtain ⟨single, refers⟩ := Bool.and_eq_true_iff.mp refers
    obtain ⟨bytes, isOnly⟩ := List.length_eq_one_iff.mp (eq_of_beq single)
    rw [isOnly, List.getElem?_cons_zero, Option.any_some] at refers
    obtain ⟨_, isScope, refers⟩ := exists_of_any refers
    obtain ⟨scope, rfl, refers⟩ := (Option.any_eq_true _ _).mp refers
    obtain ⟨stored, isRead, refers⟩ := exists_of_any refers
    refine ⟨compiled, bytes, success, isOnly, onlyMain, rfl, fun named => ?_⟩
    obtain ⟨_, _, sameScope, sameRead, each⟩ := named 0 _ rfl
    cases isScope.symm.trans sameScope
    cases isRead.symm.trans sameRead
    rw [eq_of_beq refers] at each
    obtain ⟨action, _, _, inside, _⟩ := exists_of_forall₂ each (List.mem_singleton_self _)
    exact absurd inside (by decide)

end Kashida
