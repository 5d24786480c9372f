import Kashida.Proofs.Registration

/-! Where bytes come from. Those of a slot were made by a compilation of the session, or came with the lookup that was
last added under its name. Bytes that were made are those of their subtable, with the names of that time and with rows
that the session still has; of bytes from elsewhere nothing of the kind can be said. -/
namespace Kashida.Compiler

/-- A compilation of the session made these bytes from a subtable of the lookup with this name. -/
def Made (font : Font) (steps : List SessionStep) (kind : TableKind) (owner : String) (subtable : Subtable)
    (bytes : List UInt8) : Prop :=
  ∃ since number index, since ++ [.compile] <+: steps ∧
    ((session font since).table kind).slot? number index = some (owner, ⟨subtable, none⟩) ∧
    ((session font (since ++ [.compile])).table kind).slot? number index = some (owner, ⟨subtable, some bytes⟩)

/-- The lookup that was last added under this name had these bytes of a subtable. -/
def Brought (steps : List SessionStep) (kind : TableKind) (owner : String) (subtable : Subtable)
    (bytes : List UInt8) : Prop :=
  ∃ lookup, lastAdded kind owner steps = some lookup ∧ ⟨subtable, some bytes⟩ ∈ lookup.slots

/-- The lookup that was last added under this name had no bytes but such as the session makes of the same subtable. -/
def OwnBytes (font : Font) (steps : List SessionStep) (kind : TableKind) (owner : String) : Prop :=
  ∀ subtable bytes, Brought steps kind owner subtable bytes → Made font steps kind owner subtable bytes

/-- All lookups were added without bytes. -/
def Bare (steps : List SessionStep) : Prop :=
  ∀ lookup, SessionStep.add lookup ∈ steps → ∀ slot ∈ lookup.slots, slot.encoded = none

/-- Adds the lookup that a compiler has under a name, with the bytes that it has. -/
def reuse (compiler : Compiler) (kind : TableKind) (name : String) : List SessionStep :=
  (compiler.find? kind name).toList.map SessionStep.add

variable {font : Font} {steps more : List SessionStep} {kind : TableKind} {number : UInt16} {owner : String}
  {subtable : Subtable} {bytes : List UInt8}

theorem Made.mono (made : Made font steps kind owner subtable bytes) (grown : steps <+: more) :
    Made font more kind owner subtable bytes := by
  obtain ⟨since, number, index, isPart, empty, filled⟩ := made
  exact ⟨since, number, index, isPart.trans grown, empty, filled⟩

/-- Bytes that were made are those of their subtable. -/
theorem Made.encodes (made : Made font steps kind owner subtable bytes) : ∃ since, since <+: steps ∧
    subtable.Encodes font ((session font since).table kind).names owner (session font steps).sets bytes := by
  obtain ⟨since, number, index, ⟨after, rfl⟩, empty, filled⟩ := made
  have follows := (session_compile font since).1.follows
  refine ⟨since, (List.prefix_append _ _).trans (List.prefix_append _ _), ?_⟩
  rcases (follows.tables kind).slots filled with kept | supplies
  · rw [empty] at kept
    cases kept
  · cases supplies with
    | made _ encodes =>
      rw [(session_sound font since).sameFont] at encodes
      exact encodes.mono (session_grows font (since ++ [.compile]) after)

theorem adds_eq_some_iff {step : SessionStep} {lookup : Lookup} :
    step.adds kind owner = some lookup ↔ step = .add lookup ∧ lookup.kind.table = kind ∧ lookup.name = owner := by
  cases step with
  | add other =>
    simp only [SessionStep.adds, SessionStep.add.injEq, Option.ite_none_right_eq_some, Option.some.injEq]
    constructor
    · rintro ⟨same, rfl⟩
      exact ⟨rfl, same⟩
    · rintro ⟨rfl, same⟩
      exact ⟨same, rfl⟩
  | _ => simp [SessionStep.adds]

/-- Once a lookup has been added, the slots under its name are its own. -/
theorem add_slot {lookup : Lookup}
    (found : ((session font (steps ++ [.add lookup])).table lookup.kind.table).slot? number index =
      some (lookup.name, slot)) : slot ∈ lookup.slots := by
  have orderly := session_orderly font (steps ++ [.add lookup]) lookup.kind.table
  simp only [LookupTable.slot?, Option.bind_eq_some_iff, Option.map_eq_some_iff] at found
  obtain ⟨held, atNumber, _, atIndex, same⟩ := found
  obtain ⟨sameName, rfl⟩ := Prod.mk.inj same
  have isNumber := (orderly.lists.numbers held.name number).mpr (orderly.named number held atNumber).1
  rw [sameName, session_concat, take] at isNumber
  rw [session_concat, take] at atNumber
  have isAdded := find?_add (session_sound font steps).orderly lookup
    (isNumber ▸ Option.some_ne_none number)
  rw [if_pos ⟨rfl, rfl⟩, find?, LookupTable.find?, isNumber] at isAdded
  cases atNumber.symm.trans isAdded
  exact List.mem_of_getElem? atIndex

/-- Each slot's bytes were made or brought. -/
theorem made_or_brought
    (found : ((session font steps).table kind).slot? number index = some (owner, ⟨subtable, some bytes⟩)) :
    Made font steps kind owner subtable bytes ∨ Brought steps kind owner subtable bytes := by
  induction steps using List.reverseRecOn with
  | nil =>
    rw [session, List.foldl_nil, table_ofFont, LookupTable.slot?, Std.TreeMap.getElem?_emptyc] at found
    cases found
  | append_singleton steps step ih =>
    cases adds : step.adds kind owner with
    | some lookup =>
      obtain ⟨rfl, rfl, rfl⟩ := adds_eq_some_iff.mp adds
      exact .inr ⟨lookup, by rw [lastAdded_concat, adds, Option.some_or], add_slot found⟩
    | none =>
      have sameLast : lastAdded kind owner (steps ++ [step]) = lastAdded kind owner steps := by
        rw [lastAdded_concat, adds, Option.none_or]
      have follows := take_follows (session_sound font steps).valid step
      rw [← session_concat] at follows
      rcases (follows.tables kind).slots found with old | supplies
      · rcases ih old with made | ⟨lookup, isLast, member⟩
        · exact .inl (made.mono (List.prefix_append _ _))
        · exact .inr ⟨lookup, sameLast.trans isLast, member⟩
      · cases supplies with
        | made empty _ => exact .inl ⟨steps, number, index, List.prefix_refl _, empty, found⟩
        | brought ofKind named _ => cases adds.symm.trans (adds_eq_some_iff.mpr ⟨rfl, ofKind, named⟩)

theorem Bare.left (bare : Bare (steps ++ more)) : Bare steps :=
  fun lookup added => bare lookup (List.mem_append_left _ added)

theorem Bare.compile (bare : Bare steps) : Bare (steps ++ [.compile]) :=
  fun lookup added => bare lookup (by simpa using added)

theorem Bare.not_brought (bare : Bare steps) : ¬Brought steps kind owner subtable bytes := by
  rintro ⟨lookup, isLast, member⟩
  obtain ⟨step, there, adds⟩ := List.mem_filterMap.mp (List.mem_of_getLast? isLast)
  obtain ⟨rfl, _⟩ := adds_eq_some_iff.mp adds
  cases bare lookup there _ member

theorem Bare.ownBytes (bare : Bare steps) : OwnBytes font steps kind owner :=
  fun _ _ brought => absurd brought bare.not_brought

/-- Without bytes from elsewhere, those of a slot were made from its subtable, which has not changed since. -/
theorem Bare.traced (bare : Bare steps)
    (found : ((session font steps).table kind).slot? number index = some (owner, ⟨subtable, some bytes⟩)) :
    ∃ since after, steps = since ++ after ∧ HeldSince font since after kind number index owner subtable bytes ∧
      subtable.Encodes font ((session font since).table kind).names owner (session font steps).sets bytes := by
  obtain ⟨since, step, after, rfl, held, supplies⟩ := (session_sound font steps).traced found
  cases supplies with
  | made empty encodes =>
    refine ⟨_, after, List.append_cons .., held, ?_⟩
    rw [((session_compile font since).1.tables kind).names]
    exact encodes
  | @brought lookup _ _ has => cases bare lookup (by simp) _ (List.mem_of_getElem? has)

namespace OwnBytes

theorem made (own : OwnBytes font steps kind owner)
    (found : ((session font steps).table kind).slot? number index = some (owner, ⟨subtable, some bytes⟩)) :
    Made font steps kind owner subtable bytes :=
  (made_or_brought found).elim id (own subtable bytes)

theorem compile (own : OwnBytes font steps kind owner) : OwnBytes font (steps ++ [.compile]) kind owner := by
  rintro subtable bytes ⟨lookup, isLast, member⟩
  have earlier : lastAdded kind owner steps = some lookup :=
    (lastAdded_concat kind owner steps .compile).symm.trans isLast
  exact (own subtable bytes ⟨lookup, earlier, member⟩).mono (List.prefix_append _ _)

/-- A lookup of the session may be added again, bytes and all. -/
theorem reuse (own : OwnBytes font steps kind owner) :
    OwnBytes font (steps ++ (session font steps).reuse kind owner) kind owner := by
  have orderly := session_orderly font steps kind
  rw [Compiler.reuse, find?, LookupTable.find?]
  cases isNumber : ((session font steps).table kind).names.number? owner with
  | none => simpa using own
  | some number =>
    cases found : ((session font steps).table kind).lookups[number]? with
    | none => simpa [found] using own
    | some lookup =>
      obtain ⟨named, ofKind⟩ := orderly.named number lookup found
      have isOwner := Option.some.inj (named.symm.trans ((orderly.lists.numbers owner number).mp isNumber))
      simp only [Option.bind_eq_bind, Option.bind_some, found, Option.toList_some, List.map_cons, List.map_nil]
      rintro subtable bytes ⟨other, isLast, member⟩
      rw [lastAdded_concat, adds_eq_some_iff.mpr ⟨rfl, ofKind, isOwner⟩, Option.some_or] at isLast
      cases isLast
      obtain ⟨index, there⟩ := LookupTable.exists_slot? found member rfl
      exact (own.made (isOwner ▸ there)).mono (List.prefix_append _ _)

end OwnBytes

end Kashida.Compiler
