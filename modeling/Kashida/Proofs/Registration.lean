import Kashida.Proofs.Rebuilding

/-! What a session registers and adds, told from its steps alone. The compiler has come to the same names, numbered in
the order of their first registration, and holds the latest lookup under each of them. -/
namespace Kashida

/-- The name that a step registers in a table. -/
def SessionStep.registers (kind : TableKind) : SessionStep → Option String
  | .declare table name => if table = kind then some name else none
  | .add lookup => if lookup.kind.table = kind then some lookup.name else none
  | _ => none

/-- The lookup that a step adds under a name. -/
def SessionStep.adds (kind : TableKind) (name : String) : SessionStep → Option Lookup
  | .add lookup => if lookup.kind.table = kind ∧ lookup.name = name then some lookup else none
  | _ => none

namespace Lookup

/-- With one more subtable, if it is of the lookup's kind. -/
def extend (lookup : Lookup) (subtable : Subtable) : Lookup :=
  if lookup.kind.accepts subtable then { lookup with slots := lookup.slots ++ [{ subtable }] } else lookup

/-- With another subtable in the place of one, if there is one. -/
def alter (lookup : Lookup) (index : Nat) (change : Subtable → Subtable) : Lookup :=
  { lookup with slots := lookup.slots.modify index fun slot => { subtable := change slot.subtable } }

end Lookup

/-- What a step makes of the lookup under a name, its bytes aside. -/
def SessionStep.edit (kind : TableKind) (name : String) (held : Option Lookup) : SessionStep → Option Lookup
  | .declare _ _ | .compile => held
  | .add lookup => if lookup.kind.table = kind ∧ lookup.name = name then some lookup.withoutBytes else held
  | .push table owner subtable => if table = kind ∧ owner = name then held.map (·.extend subtable) else held
  | .change table owner index alter =>
      if table = kind ∧ owner = name then held.map (·.alter index alter) else held

namespace Compiler

/-- The names of a table, in the order of their first registration. A table has 65536 numbers, and names that are
registered when it is full are none of its names. -/
def registered (kind : TableKind) (steps : List SessionStep) : List String :=
  (steps.filterMap (SessionStep.registers kind)).eraseDups.take 65536

/-- The lookup that was last added under a name, as it was added. -/
def lastAdded (kind : TableKind) (name : String) (steps : List SessionStep) : Option Lookup :=
  (steps.filterMap (SessionStep.adds kind name)).getLast?

/-- The lookup that was last added under a name, with the subtables that were pushed or changed since. Bytes are left
out. -/
def latest (kind : TableKind) (name : String) (steps : List SessionStep) : Option Lookup :=
  steps.foldl (SessionStep.edit kind name) none

theorem lastAdded_concat (kind : TableKind) (name : String) (steps : List SessionStep) (step : SessionStep) :
    lastAdded kind name (steps ++ [step]) = (step.adds kind name).or (lastAdded kind name steps) := by
  rw [lastAdded, lastAdded, List.filterMap_append, List.getLast?_append, List.filterMap_cons, List.filterMap_nil]
  cases step.adds kind name <;> rfl

theorem latest_concat (kind : TableKind) (name : String) (steps : List SessionStep) (step : SessionStep) :
    latest kind name (steps ++ [step]) = step.edit kind name (latest kind name steps) := List.foldl_concat ..

/-- Names stay where they are. -/
theorem registered_grows (kind : TableKind) (steps more : List SessionStep) :
    registered kind steps <+: registered kind (steps ++ more) := by
  rw [registered, registered, List.filterMap_append, List.eraseDups_append, List.take_append]
  exact List.prefix_append _ _

theorem registered_idle {step : SessionStep} (idle : step.registers kind = none) (steps : List SessionStep) :
    registered kind (steps ++ [step]) = registered kind steps := by
  simp only [registered, List.filterMap_append, List.filterMap_cons, idle, List.filterMap_nil, List.append_nil]

theorem tried_concat {step : SessionStep} (registers : step.registers kind = some name) (steps : List SessionStep) :
    (steps ++ [step]).filterMap (SessionStep.registers kind) =
      steps.filterMap (SessionStep.registers kind) ++ [name] := by
  simp only [List.filterMap_append, List.filterMap_cons, registers, List.filterMap_nil]

theorem registered_again {step : SessionStep} (registers : step.registers kind = some name)
    (steps : List SessionStep) (without : name ∈ registered kind steps ∨ (registered kind steps).length = 65536) :
    registered kind (steps ++ [step]) = registered kind steps := by
  simp only [registered, tried_concat registers, List.eraseDups_append] at without ⊢
  generalize steps.filterMap (SessionStep.registers kind) = names at without ⊢
  rcases without with member | full
  · have known : name ∈ names := List.mem_eraseDups.mp (List.mem_of_mem_take member)
    have nothing : [name].removeAll names = [] := by simp [List.removeAll, known]
    rw [nothing, List.eraseDups_nil, List.append_nil]
  · rw [List.length_take] at full
    exact List.take_append_of_le_length (by omega)

theorem registered_fresh {step : SessionStep} (registers : step.registers kind = some name)
    (steps : List SessionStep) (fresh : name ∉ registered kind steps) (room : (registered kind steps).length < 65536) :
    registered kind (steps ++ [step]) = registered kind steps ++ [name] := by
  simp only [registered, tried_concat registers, List.eraseDups_append] at fresh room ⊢
  generalize steps.filterMap (SessionStep.registers kind) = names at fresh room ⊢
  rw [List.length_take] at room
  -- As there is room, no name has been cut off.
  have all : names.eraseDups.take 65536 = names.eraseDups := List.take_of_length_le (by omega)
  rw [all, List.mem_eraseDups] at fresh
  have itself : ([name].removeAll names).eraseDups = [name] := by simp [List.removeAll, fresh, List.eraseDups_cons]
  rw [itself, all, List.take_of_length_le]
  rw [List.length_append, List.length_singleton]
  omega

-- A name that is declared again, or in the other table, takes no place.
example : registered .substitution [.declare .substitution "swap", .declare .positioning "kern",
    .declare .substitution "main", .declare .substitution "swap"] = ["swap", "main"] := by decide

end Compiler

namespace LookupTable

theorem find?_put {table : LookupTable} (lists : table.names.Lists listed)
    (isNumber : table.names.number? owner = some number) (lookup : Lookup) (name : String) :
    (table.put number lookup).find? name = if owner = name then some lookup else table.find? name := by
  cases found : table.names.number? name with
  | none =>
    have different : owner ≠ name := by
      rintro rfl
      cases isNumber.symm.trans found
    simp only [find?, put, found, Option.bind_eq_bind, Option.bind_none, if_neg different]
  | some other =>
    have same : number = other ↔ owner = name := by
      constructor
      · rintro rfl
        exact lists.eq_of_number? isNumber found
      · rintro rfl
        exact Option.some.inj (isNumber.symm.trans found)
    simp only [find?, put, found, Option.bind_eq_bind, Option.bind_some, Std.TreeMap.getElem?_insert,
      Std.LawfulEqOrd.compare_eq_iff_eq, same]

/-- Registering a name moves no lookup, and there is none under a new name. -/
theorem Orderly.find?_register {table : LookupTable} {names : LookupNames} (orderly : table.Orderly kind listed)
    (step : table.names.register kind name = (outcome, names)) (other : String) :
    find? { table with names } other = table.find? other := by
  rcases LookupNames.register_lists orderly.lists step with ⟨_, rfl, _⟩ | ⟨fresh, lists, _⟩ | ⟨_, rfl, _⟩
  · rfl
  · simp only [find?, Option.bind_eq_bind]
    cases found : table.names.number? other with
    | some number => rw [orderly.lists.number?_grown lists found]
    | none =>
      cases isNew : names.number? other with
      | none => rfl
      | some number =>
        rw [Option.bind_some, Option.bind_none]
        cases there : table.lookups[number]? with
        | none => rfl
        | some lookup =>
          have named := (orderly.named number lookup there).1
          rw [lists.numbers, List.getElem?_append_left (List.getElem?_eq_some_iff.mp named).1] at isNew
          exact absurd (List.mem_of_getElem? isNew) (orderly.lists.unregistered.mp found)
  · rfl

end LookupTable

namespace Compiler

/-- Changing a lookup changes nothing else. -/
theorem find?_updateLookup {compiler : Compiler} {change : Lookup → Option (α × Lookup)}
    (orderly : ∀ kind, ∃ listed, (compiler.table kind).Orderly kind listed) (table kind : TableKind)
    (owner name : String) :
    (((compiler.updateLookup? table owner change).map Prod.snd).getD compiler).find? kind name =
      if table = kind ∧ owner = name then
        (compiler.find? kind name).map fun lookup => ((change lookup).map Prod.snd).getD lookup
      else compiler.find? kind name := by
  obtain ⟨listed, orderly⟩ := orderly table
  cases changing : compiler.updateLookup? table owner change with
  | some result =>
    obtain ⟨number, lookup, changed, isNumber, found, changing, isNext⟩ := updateLookup?_parts changing
    have there : (compiler.table table).find? owner = some lookup := by
      simp only [LookupTable.find?, isNumber, found, Option.bind_eq_bind, Option.bind_some]
    rw [Option.map_some, Option.getD_some, isNext, find?, table_setTable]
    by_cases sameTable : table = kind
    · subst sameTable
      rw [if_pos rfl, LookupTable.find?_put orderly.lists isNumber]
      by_cases sameName : owner = name
      · subst sameName
        simp only [find?, there, changing, Option.map_some, Option.getD_some, and_self, if_true]
      · simp only [find?, sameName, and_false, if_false]
    · simp only [find?, sameTable, false_and, if_false]
  | none =>
    rw [Option.map_none, Option.getD_none]
    split
    · rename_i same
      obtain ⟨rfl, rfl⟩ := same
      cases there : compiler.find? table owner with
      | none => rfl
      | some lookup =>
        -- The lookup is there, so it is the change that fails.
        have unchanged : change lookup = none := by
          simp only [find?, LookupTable.find?, Option.bind_eq_bind, Option.bind_eq_some_iff] at there
          obtain ⟨number, isNumber, found⟩ := there
          refine Option.eq_none_iff_forall_ne_some.mpr ?_
          simpa [updateLookup?, isNumber, found] using changing
        rw [Option.map_some, unchanged, Option.map_none, Option.getD_none]
    · rfl

end Compiler

theorem LookupTable.Reencoded.find?_withoutBytes {before after : LookupTable}
    (reencoded : Reencoded font sets before after) (name : String) :
    (after.find? name).map Lookup.withoutBytes = (before.find? name).map Lookup.withoutBytes := by
  simp only [find?, reencoded.names, Option.bind_eq_bind]
  cases before.names.number? name with
  | none => rfl
  | some number =>
    have related := reencoded.lookups number
    rw [Option.bind_some, Option.bind_some]
    generalize before.lookups[number]? = lookup at related ⊢
    generalize after.lookups[number]? = next at related ⊢
    cases related with
    | none => rfl
    | some same => rw [Option.map_some, Option.map_some, same.withoutBytes]

namespace Compiler

variable {compiler : Compiler} {kind : TableKind} {name : String}

theorem find?_add (orderly : ∀ kind, ∃ listed, (compiler.table kind).Orderly kind listed) (lookup : Lookup)
    (isRegistered : ((compiler.add lookup).2.table kind).names.number? name ≠ none) :
    (compiler.add lookup).2.find? kind name =
      if lookup.kind.table = kind ∧ lookup.name = name then some lookup else compiler.find? kind name := by
  obtain ⟨listed, orderly⟩ := orderly lookup.kind.table
  rw [add_eq] at isRegistered ⊢
  by_cases sameTable : lookup.kind.table = kind
  · subst sameTable
    split at isRegistered
    · rename_i error names registering
      rw [table_setTable, if_pos rfl] at isRegistered
      rw [find?, table_setTable, if_pos rfl, orderly.find?_register registering]
      rcases LookupNames.register_lists orderly.lists registering with
        ⟨_, _, _, isOk, _⟩ | ⟨_, _, _, isOk, _⟩ | ⟨unregistered, rfl, _⟩
      · cases isOk
      · cases isOk
      · -- The table is full, so the lookup is not added, but nor is its name registered.
        have different : lookup.name ≠ name := by
          rintro rfl
          exact isRegistered (orderly.lists.unregistered.mpr unregistered)
        rw [if_neg fun same => different same.2, find?]
    · rename_i number names registering
      obtain ⟨more, next, place⟩ := orderly.register registering
      have isNumber := (next.lists.numbers lookup.name number).mpr (place number rfl)
      rw [find?, table_setTable, if_pos rfl, LookupTable.find?_put next.lists isNumber,
        orderly.find?_register registering]
      simp only [true_and, find?]
  · rw [if_neg fun same => sameTable same.1]
    split <;> rw [find?, table_setTable, if_neg sameTable, find?]

theorem find?_take (valid : compiler.sets.Valid)
    (orderly : ∀ kind, ∃ listed, (compiler.table kind).Orderly kind listed) (step : SessionStep)
    (isRegistered : ((compiler.take step).table kind).names.number? name ≠ none) :
    ((compiler.take step).find? kind name).map Lookup.withoutBytes =
      step.edit kind name ((compiler.find? kind name).map Lookup.withoutBytes) := by
  cases step with
  | declare table other =>
    obtain ⟨listed, orderly⟩ := orderly table
    rw [take, declare, find?, table_setTable]
    by_cases sameTable : table = kind
    · subst sameTable
      have unmoved : LookupTable.find? { compiler.table table with
          names := ((compiler.table table).names.register table other).2 } name = compiler.find? table name :=
        orderly.find?_register rfl name
      rw [if_pos rfl, unmoved]
      rfl
    · rw [if_neg sameTable]
      rfl
  | add lookup =>
    rw [take, find?_add orderly lookup isRegistered, SessionStep.edit]
    split <;> rfl
  | push table owner subtable =>
    rw [take, push?, find?_updateLookup orderly, SessionStep.edit]
    split
    · rw [Option.map_map, Option.map_map]
      refine congrArg (Option.map · _) (funext fun lookup => ?_)
      by_cases accepted : lookup.kind.accepts subtable <;>
        simp [Lookup.push, accepted, Lookup.extend, Lookup.withoutBytes]
    · rfl
  | change table owner index alter =>
    rw [take, updateSubtable?, find?_updateLookup orderly, SessionStep.edit]
    split
    · rw [Option.map_map, Option.map_map]
      refine congrArg (Option.map · _) (funext fun lookup => ?_)
      simp only [Function.comp_apply, Lookup.updateSubtable?, Lookup.alter, Lookup.withoutBytes,
        List.modify_eq_set_getElem?, List.getElem?_map]
      cases lookup.slots[index]? with
      | none => rfl
      | some slot => simp [List.map_set]
    · rfl
  | compile => exact ((compile_recompiled valid).tables kind).find?_withoutBytes name

theorem names_updateLookup (change : Lookup → Option (α × Lookup)) (table : TableKind) (owner : String) :
    ((((compiler.updateLookup? table owner change).map Prod.snd).getD compiler).table kind).names =
      (compiler.table kind).names := by
  cases changing : compiler.updateLookup? table owner change with
  | none => rfl
  | some result =>
    obtain ⟨number, lookup, changed, _, _, _, isNext⟩ := updateLookup?_parts changing
    rw [Option.map_some, Option.getD_some, isNext, table_setTable]
    split
    · rename_i same
      subst same
      rfl
    · rfl

theorem names_declare (table : TableKind) (other : String) :
    ((compiler.declare table other).2.table kind).names =
      (((SessionStep.declare table other).registers kind).map fun name =>
        ((compiler.table kind).names.register kind name).2).getD (compiler.table kind).names := by
  rw [declare, table_setTable, SessionStep.registers]
  by_cases same : table = kind
  · subst same
    rw [if_pos rfl, if_pos rfl]
    rfl
  · rw [if_neg same, if_neg same]
    rfl

/-- Adding a lookup declares its name. -/
theorem add_declares (compiler : Compiler) (lookup : Lookup) :
    (compiler.add lookup).1 = (compiler.declare lookup.kind.table lookup.name).1 ∧
      ∀ kind, ((compiler.add lookup).2.table kind).names =
        ((compiler.declare lookup.kind.table lookup.name).2.table kind).names := by
  unfold add
  split
  · rename_i declaring
    rw [declaring]
    exact ⟨rfl, fun _ => rfl⟩
  · rename_i declaring
    rw [declaring]
    refine ⟨rfl, fun kind => ?_⟩
    rw [table_setTable]
    split
    · rename_i same
      rw [← same]
      rfl
    · rfl

/-- Steps change no names but by registering one. -/
theorem names_take (valid : compiler.sets.Valid) (step : SessionStep) (kind : TableKind) :
    ((compiler.take step).table kind).names =
      ((step.registers kind).map fun name => ((compiler.table kind).names.register kind name).2).getD
        (compiler.table kind).names := by
  cases step with
  | declare table name => exact names_declare table name
  | add lookup =>
    rw [take, (compiler.add_declares lookup).2]
    exact names_declare lookup.kind.table lookup.name
  | push table owner subtable => exact names_updateLookup ..
  | change table owner index alter => exact names_updateLookup ..
  | compile => exact ((compile_recompiled valid).tables kind).names

/-- Declaring a name gives the number that it then has. -/
theorem declare_number (compiler : Compiler) (kind : TableKind) (name : String) :
    (compiler.declare kind name).1.toOption = ((compiler.declare kind name).2.table kind).names.number? name := by
  rw [declare, table_setTable, if_pos rfl]
  show ((LookupNames.register _ kind name).1.mapError _).toOption = (LookupNames.register _ kind name).2.number? name
  rw [← LookupNames.register_number]
  cases (LookupNames.register _ kind name).1 <;> rfl

theorem add_number (compiler : Compiler) (lookup : Lookup) :
    (compiler.add lookup).1.toOption =
      ((compiler.add lookup).2.table lookup.kind.table).names.number? lookup.name := by
  obtain ⟨sameOutcome, sameNames⟩ := compiler.add_declares lookup
  rw [sameOutcome, sameNames, declare_number]

theorem session_lists (font : Font) (steps : List SessionStep) (kind : TableKind) :
    ((session font steps).table kind).names.Lists (registered kind steps) := by
  induction steps using List.reverseRecOn with
  | nil =>
    rw [session, List.foldl_nil, table_ofFont]
    exact LookupNames.lists_empty
  | append_singleton steps step lists =>
    rw [session_concat, names_take (session_sound font steps).valid]
    cases registers : step.registers kind with
    | none =>
      rw [registered_idle registers]
      exact lists
    | some name =>
      rw [Option.map_some, Option.getD_some]
      generalize registering : ((session font steps).table kind).names.register kind name = result
      obtain ⟨outcome, names⟩ := result
      rcases LookupNames.register_lists lists registering with ⟨known, rfl, _⟩ | ⟨fresh, next, _⟩ | ⟨_, rfl, full, _⟩
      · rw [registered_again registers steps (.inl known)]
        exact lists
      · have room := next.counted
        rw [List.length_append, List.length_singleton] at room
        rw [registered_fresh registers steps fresh (by omega)]
        exact next
      · rw [registered_again registers steps (.inr full)]
        exact lists

theorem session_orderly (font : Font) (steps : List SessionStep) (kind : TableKind) :
    ((session font steps).table kind).Orderly kind (registered kind steps) := by
  obtain ⟨listed, orderly⟩ := (session_sound font steps).orderly kind
  exact orderly.lists.unique (session_lists font steps kind) ▸ orderly

theorem latest_untried (untried : name ∉ steps.filterMap (SessionStep.registers kind)) :
    latest kind name steps = none := by
  induction steps using List.reverseRecOn with
  | nil => rfl
  | append_singleton steps step ih =>
    rw [List.filterMap_append, List.mem_append, not_or] at untried
    rw [latest_concat, ih untried.1]
    cases step with
    | declare => rfl
    | add lookup =>
      rw [SessionStep.edit, if_neg]
      rintro ⟨sameTable, sameName⟩
      exact untried.2 (by simp [SessionStep.registers, sameTable, sameName])
    | push => simp [SessionStep.edit]
    | change => simp [SessionStep.edit]
    | compile => rfl

/-- A name is not tried in vain before it is registered. -/
theorem untried_of_later (fresh : name ∉ registered kind steps) (later : name ∈ registered kind (steps ++ more)) :
    name ∉ steps.filterMap (SessionStep.registers kind) := by
  intro tried
  rw [← List.mem_eraseDups] at tried
  simp only [registered, List.filterMap_append, List.eraseDups_append] at fresh later
  by_cases short : (steps.filterMap (SessionStep.registers kind)).eraseDups.length ≤ 65536
  · rw [List.take_of_length_le short] at fresh
    exact fresh tried
  · rw [List.take_append_of_le_length (by omega)] at later
    exact fresh later

/-- The lookup under a registered name is the latest. -/
theorem session_latest (font : Font) {steps : List SessionStep} (isRegistered : name ∈ registered kind steps) :
    ((session font steps).find? kind name).map Lookup.withoutBytes = latest kind name steps := by
  induction steps using List.reverseRecOn with
  | nil => cases isRegistered
  | append_singleton steps step ih =>
    have numbered : (((session font steps).take step).table kind).names.number? name ≠ none := by
      rw [← session_concat, ne_eq, (session_lists font (steps ++ [step]) kind).unregistered]
      exact not_not.mpr isRegistered
    have sound := session_sound font steps
    rw [session_concat, latest_concat, find?_take sound.valid sound.orderly step numbered]
    by_cases known : name ∈ registered kind steps
    · rw [ih known]
    · have nothing : (session font steps).find? kind name = none := by
        rw [find?, LookupTable.find?, (session_lists font steps kind).unregistered.mpr known]
        rfl
      rw [nothing, latest_untried (untried_of_later known isRegistered)]
      rfl

end Compiler

end Kashida
