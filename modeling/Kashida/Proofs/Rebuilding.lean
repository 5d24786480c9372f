import Kashida.Proofs.Lookup.Remaking
import Kashida.Proofs.Session

/-! A compiler built anew: a session that declares the names of another compiler in their order and adds its lookups
without bytes. It comes to the same names and lookups, and compiles every lookup from nothing. -/
namespace Kashida

/-- Encoding a lookup changes nothing but bytes. -/
theorem Lookup.Reencoded.withoutBytes (reencoded : Reencoded font names sets lookup next) :
    next.withoutBytes = lookup.withoutBytes := by
  obtain ⟨slots, rfl, each⟩ := reencoded
  simp only [Lookup.withoutBytes, Lookup.mk.injEq, true_and]
  rw [map_eq_map_iff]
  exact each.flip.imp fun next slot encoded => by cases encoded <;> rfl

/-- The steps that build a table: its names are declared, then its lookups are added. -/
def LookupTable.rebuild (kind : TableKind) (table : LookupTable) : List SessionStep :=
  (table.names.toList.map fun entry => .declare kind entry.2) ++ table.added.map fun lookup => .add lookup.withoutBytes

/-- A new compiler with the names and lookups of this one. -/
def Compiler.anew (compiler : Compiler) : Compiler :=
  session compiler.font (compiler.substitution.rebuild .substitution ++ compiler.positioning.rebuild .positioning)

/-- The other table has the same names, and without bytes the same lookups. -/
structure LookupTable.Renews (listed : List String) (table other : LookupTable) : Prop where
  lists : other.names.Lists listed
  lookups : ∀ (number : UInt16) (lookup : Lookup), table.lookups[number]? = some lookup →
    other.lookups[number]? = some lookup.withoutBytes

namespace Compiler

theorem setTable_self (compiler : Compiler) (kind : TableKind) :
    compiler.setTable kind (compiler.table kind) = compiler := by
  cases kind <;> rfl

theorem declareAll_lists {compiler : Compiler} {kind : TableKind} (lists : (compiler.table kind).names.Lists listed)
    (names : List String) (distinct : (listed ++ names).Nodup) (room : (listed ++ names).length ≤ 65536) :
    ∃ result : LookupNames, (names.map (SessionStep.declare kind)).foldl take compiler =
      compiler.setTable kind { compiler.table kind with names := result } ∧ result.Lists (listed ++ names) := by
  induction names generalizing compiler listed with
  | nil =>
    refine ⟨(compiler.table kind).names, ?_, by rwa [List.append_nil]⟩
    exact (compiler.setTable_self kind).symm
  | cons name names ih =>
    rw [List.append_cons] at distinct room
    have fresh : name ∉ listed := by
      have front := (List.nodup_append.mp distinct).1
      intro member
      exact (List.nodup_append.mp front).2.2 name member name (List.mem_singleton_self _) rfl
    have short : listed.length < 65536 := by
      simp only [List.length_append, List.length_singleton] at room
      omega
    generalize registering : (compiler.table kind).names.register kind name = registered
    obtain ⟨outcome, next⟩ := registered
    have step : compiler.take (.declare kind name) =
        compiler.setTable kind { compiler.table kind with names := next } := by
      rw [take, declare, registering]
    -- The name is new and there is room, so it gets the next number.
    rcases LookupNames.register_lists lists registering with ⟨member, _⟩ | ⟨_, nextLists, _⟩ | ⟨_, _, full, _⟩
    · exact absurd member fresh
    · have listsLater : ((compiler.take (.declare kind name)).table kind).names.Lists (listed ++ [name]) := by
        rwa [step, table_setTable, if_pos rfl]
      obtain ⟨result, folded, all⟩ := ih listsLater distinct room
      refine ⟨result, ?_, by rwa [List.append_cons]⟩
      rw [List.map_cons, List.foldl_cons, folded, step, setTable_setTable, table_setTable, if_pos rfl]
    · omega

theorem take_add_withoutBytes {compiler : Compiler} {lookup : Lookup}
    (registered : (compiler.table lookup.kind.table).names.number? lookup.name = some number) :
    compiler.take (.add lookup.withoutBytes) = compiler.setTable lookup.kind.table
      ((compiler.table lookup.kind.table).put number lookup.withoutBytes) := by
  -- The lookup that is added has the kind and the name of this one by definition only.
  have registering : (compiler.table lookup.withoutBytes.kind.table).names.register
      lookup.withoutBytes.kind.table lookup.withoutBytes.name =
      (.ok number, (compiler.table lookup.kind.table).names) := by
    change (compiler.table lookup.withoutBytes.kind.table).names.number? lookup.withoutBytes.name = some number
      at registered
    rw [LookupNames.register, registered]
    rfl
  rw [take, add_eq, registering]
  rfl

/-- Lookups that are added under their numbers. Other numbers keep what they have. -/
theorem addAll_lookups {compiler : Compiler} {kind : TableKind} (lists : (compiler.table kind).names.Lists listed)
    {entries : List (UInt16 × Lookup)} (distinct : entries.Pairwise fun one other => one.1 ≠ other.1)
    (named : ∀ entry ∈ entries, listed[entry.1.toNat]? = some entry.2.name ∧ entry.2.kind.table = kind) :
    ∃ lookups, (entries.map fun entry => SessionStep.add entry.2.withoutBytes).foldl take compiler =
        compiler.setTable kind { compiler.table kind with lookups } ∧
      (∀ entry ∈ entries, lookups[entry.1]? = some entry.2.withoutBytes) ∧
      ∀ number, (∀ entry ∈ entries, entry.1 ≠ number) → lookups[number]? = (compiler.table kind).lookups[number]? := by
  induction entries generalizing compiler with
  | nil =>
    exact ⟨(compiler.table kind).lookups, (compiler.setTable_self kind).symm, List.forall_mem_nil _, fun _ _ => rfl⟩
  | cons entry entries ih =>
    obtain ⟨number, lookup⟩ := entry
    obtain ⟨apart, distinct⟩ := List.pairwise_cons.mp distinct
    obtain ⟨here, rfl⟩ := named _ List.mem_cons_self
    have step := take_add_withoutBytes ((lists.numbers lookup.name number).mpr here)
    have listsLater : ((compiler.take (.add lookup.withoutBytes)).table lookup.kind.table).names.Lists listed := by
      rwa [step, table_setTable, if_pos rfl]
    obtain ⟨lookups, folded, each, others⟩ := ih listsLater distinct fun entry member =>
      named entry (List.mem_cons_of_mem _ member)
    refine ⟨lookups, ?_, ?_, ?_⟩
    · rw [List.map_cons, List.foldl_cons, folded, step, setTable_setTable, table_setTable, if_pos rfl]
      rfl
    · intro entry member
      rcases List.mem_cons.mp member with rfl | later
      · rw [others number fun other there => (apart other there).symm, step, table_setTable, if_pos rfl,
          LookupTable.put, Std.TreeMap.getElem?_insert_self]
      · exact each entry later
    · intro other outside
      rw [others other fun entry there => outside entry (List.mem_cons_of_mem _ there), step, table_setTable,
        if_pos rfl, LookupTable.put, Std.TreeMap.getElem?_insert, if_neg]
      rw [Std.LawfulEqOrd.compare_eq_iff_eq]
      exact outside _ List.mem_cons_self

/-- Building a table where there was none. -/
theorem rebuild_renews {compiler : Compiler} {table : LookupTable} (orderly : table.Orderly kind listed)
    (empty : compiler.table kind = {}) :
    ∃ next, (table.rebuild kind).foldl take compiler = compiler.setTable kind next ∧ table.Renews listed next := by
  have declares : (table.names.toList.map fun entry => SessionStep.declare kind entry.2) =
      listed.map (SessionStep.declare kind) := by
    rw [← orderly.lists.map_snd_toList, List.map_map]
    rfl
  have adds : (table.added.map fun lookup => SessionStep.add lookup.withoutBytes) =
      table.lookups.toList.map fun entry => SessionStep.add entry.2.withoutBytes := by
    rw [LookupTable.added, List.map_map]
    rfl
  have none : (compiler.table kind).names.Lists [] := empty ▸ LookupNames.lists_empty
  obtain ⟨names, declared, lists⟩ := declareAll_lists none listed orderly.lists.nodup orderly.lists.counted
  have listsLater : ((compiler.setTable kind { compiler.table kind with names }).table kind).names.Lists listed := by
    rwa [table_setTable, if_pos rfl]
  have distinct : table.lookups.toList.Pairwise fun one other => one.1 ≠ other.1 := by
    refine Std.TreeMap.distinct_keys_toList.imp ?_
    intro one other different same
    exact different (by rw [same]; exact Std.ReflOrd.compare_self)
  obtain ⟨lookups, added, each, _⟩ := addAll_lookups listsLater distinct fun entry member =>
    orderly.named entry.1 entry.2 (Std.TreeMap.mem_toList_iff_getElem?_eq_some.mp member)
  refine ⟨⟨names, lookups⟩, ?_, lists, ?_⟩
  · rw [LookupTable.rebuild, List.foldl_append, declares, adds, declared, added, setTable_setTable, table_setTable,
      if_pos rfl]
  · intro number lookup found
    exact each (number, lookup) (Std.TreeMap.mem_toList_iff_getElem?_eq_some.mpr found)

theorem anew_renews {compiler : Compiler} (orderly : ∀ kind, ∃ listed, (compiler.table kind).Orderly kind listed) :
    compiler.anew.font = compiler.font ∧ compiler.anew.sets = compiler.font.deltaSets ∧
      ∀ kind, ∃ listed, (compiler.table kind).Orderly kind listed ∧
        (compiler.table kind).Renews listed (compiler.anew.table kind) := by
  obtain ⟨substitutions, firstOrderly⟩ := orderly .substitution
  obtain ⟨positionings, secondOrderly⟩ := orderly .positioning
  obtain ⟨substitution, first, firstRenews⟩ :=
    rebuild_renews firstOrderly (table_ofFont compiler.font .substitution)
  have empty : ((ofFont compiler.font).setTable .substitution substitution).table .positioning = {} := rfl
  obtain ⟨positioning, second, secondRenews⟩ := rebuild_renews secondOrderly empty
  have built : compiler.anew =
      ((ofFont compiler.font).setTable .substitution substitution).setTable .positioning positioning := by
    rw [anew, session, List.foldl_append, ← second, ← first]
    rfl
  rw [built]
  refine ⟨rfl, rfl, ?_⟩
  rintro (_ | _)
  · exact ⟨substitutions, firstOrderly, firstRenews⟩
  · exact ⟨positionings, secondOrderly, secondRenews⟩

end Compiler

/-- The bytes of each name's lookup, made from nothing. -/
def LookupTable.Makes (font : Font) (table : LookupTable) (entries : List (Nat × String))
    (lookups : List (List UInt8)) : Prop :=
  List.Forall₂ (fun entry bytes => ∃ lookup : Lookup,
    table.lookups[UInt16.ofNat entry.1]? = some lookup.withoutBytes ∧ lookup.Makes font table.names bytes)
    entries lookups

theorem LookupTable.encodeFrom_of_makes {table : LookupTable} {entries : List (Nat × String)}
    {lookups : List (List UInt8)} (makes : table.Makes font entries lookups)
    (distinct : entries.Pairwise fun one other => UInt16.ofNat one.1 ≠ UInt16.ofNat other.1) (sets : DeltaSets) :
    ∃ next, table.encodeFrom font kind entries sets = (.ok lookups, next, sets) := by
  induction entries generalizing table lookups with
  | nil =>
    cases makes
    exact ⟨table, rfl⟩
  | cons entry entries ih =>
    cases makes with
    | @cons _ bytes _ others here rest =>
      obtain ⟨lookup, found, makes⟩ := here
      obtain ⟨apart, distinct⟩ := List.pairwise_cons.mp distinct
      obtain ⟨filled, encoding⟩ := makes sets
      -- Putting back a lookup leaves those of the other names as they are.
      have later : (table.put (.ofNat entry.1) filled).Makes font entries others := by
        refine ((List.forall₂_and_left _ _).mpr ⟨apart, rest⟩).imp ?_
        rintro other bytes ⟨elsewhere, lookup, found, makes⟩
        refine ⟨lookup, ?_, makes⟩
        rw [put, Std.TreeMap.getElem?_insert, if_neg, found]
        rwa [Std.LawfulEqOrd.compare_eq_iff_eq]
      obtain ⟨next, encodingRest⟩ := ih later distinct
      exact ⟨next, by rw [encodeFrom, found]; simp only [encoding, encodingRest]⟩

/-- A compilation from nothing, where no anchor varies. -/
theorem Compiler.compile_of_makes {compiler : Compiler} {lookups : TableKind → List (List UInt8)}
    (empty : compiler.sets.isEmpty = true) (lists : ∀ kind, ∃ listed, (compiler.table kind).names.Lists listed)
    (makes : ∀ kind, (compiler.table kind).Makes compiler.font (compiler.table kind).names.toList (lookups kind)) :
    compiler.compile.1 = .ok ⟨lookups .substitution, lookups .positioning, none⟩ := by
  have encodes : ∀ kind, ∃ next, (compiler.table kind).encode compiler.font kind compiler.sets =
      (.ok (lookups kind), next, compiler.sets) := by
    intro kind
    obtain ⟨listed, lists⟩ := lists kind
    exact LookupTable.encodeFrom_of_makes (makes kind) lists.numbers_distinct compiler.sets
  obtain ⟨substitution, first⟩ := encodes .substitution
  obtain ⟨positioning, second⟩ := encodes .positioning
  simp only [table] at first second
  simp only [compile, first, second, empty, if_true]

end Kashida
