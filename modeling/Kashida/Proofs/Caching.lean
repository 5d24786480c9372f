import Kashida.Proofs.Provenance

/-! Kept bytes and bytes made anew. Where lookups are added without bytes and anchors do not vary, they differ in one
case only: a scoped name has been registered since the bytes were made, and shadows a name that they refer to. -/
namespace Kashida

namespace LookupTable

theorem Reencoded.slot_kept {before after : LookupTable} {subtable : Subtable}
    (reencoded : Reencoded font sets before after)
    (found : before.slot? number index = some (owner, ⟨subtable, some bytes⟩)) :
    after.slot? number index = some (owner, ⟨subtable, some bytes⟩) := by
  simp only [slot?, Option.bind_eq_some_iff, Option.map_eq_some_iff] at found
  obtain ⟨lookup, atNumber, slot, atIndex, same⟩ := found
  cases same
  have related := reencoded.lookups number
  rw [atNumber] at related
  generalize there : after.lookups[number]? = next at related
  cases related with
  | some same =>
    obtain ⟨slots, rfl, each⟩ := same
    obtain ⟨slot, atNext, encoded⟩ := exists_getElem?_of_forall₂ each atIndex
    cases encoded
    simp only [slot?, there, Option.bind_some, atNext, Option.map_some]

theorem Reencoded.withoutBytes {before after : LookupTable} {number : UInt16} {next : Lookup}
    (reencoded : Reencoded font sets before after) (there : after.lookups[number]? = some next) :
    ∃ lookup, before.lookups[number]? = some lookup ∧ lookup.withoutBytes = next.withoutBytes := by
  have related := reencoded.lookups number
  rw [there] at related
  generalize before.lookups[number]? = found at related ⊢
  cases related with
  | some same => exact ⟨_, rfl, same.withoutBytes.symm⟩

/-- Where each subtable can be made again, to as many bytes, all lookups can. They come out as they were compiled
exactly if their bytes were current. -/
theorem Gives.remade {table other : LookupTable} {lookups : List (List UInt8)}
    (gives : table.Gives table.names.toList lookups) (orderly : table.Orderly kind listed)
    (lists : other.names.Lists listed)
    (renewed : ∀ (number : UInt16) (lookup : Lookup), table.lookups[number]? = some lookup →
      other.lookups[number]? = some lookup.withoutBytes)
    (each : ∀ {number index owner subtable bytes},
      table.slot? number index = some (owner, ⟨subtable, some bytes⟩) →
        ∃ next, subtable.Makes font other.names owner next ∧ next.length = bytes.length) :
    ∃ fresh, other.Makes font other.names.toList fresh ∧ (fresh = lookups ↔
      ∀ (number : UInt16) (lookup : Lookup), table.lookups[number]? = some lookup →
        lookup.Current font other.names) := by
  obtain ⟨fresh, makes, same⟩ : ∃ fresh, other.Makes font table.names.toList fresh ∧ (fresh = lookups ↔
      ∀ entry ∈ table.names.toList, ∀ lookup, table.lookups[UInt16.ofNat entry.1]? = some lookup →
        lookup.Current font other.names) := by
    refine exists_partners (gives.imp ?_)
    rintro entry bytes ⟨lookup, found, settled⟩
    have remakes : ∀ slot ∈ lookup.slots, ∀ content, slot.encoded = some content →
        ∃ next, slot.subtable.Makes font other.names lookup.name next ∧ next.length = content.length := by
      intro slot member content cached
      obtain ⟨index, there⟩ := exists_slot? found member cached
      exact each there
    obtain ⟨next, makes, same⟩ := settled.remade remakes
    refine ⟨next, ⟨lookup, renewed _ _ found, makes⟩, same.trans ⟨?_, fun current => current lookup found⟩⟩
    intro current there again
    cases found.symm.trans again
    exact current
  have sameNames : other.names.toList = table.names.toList := by
    rw [lists.toList, orderly.lists.toList]
  refine ⟨fresh, sameNames ▸ makes, same.trans ⟨?_, fun current entry _ => current _⟩⟩
  intro current number lookup found
  refine current _ (List.mem_of_getElem? (orderly.entry found)) lookup ?_
  rwa [UInt16.ofNat_toNat]

end LookupTable

namespace Compiler

/-- A table keeps bytes that were made before a scoped name was registered, which now shadows a name of their
subtable. -/
def Shadowed (font : Font) (steps : List SessionStep) (kind : TableKind) : Prop :=
  ∃ since after number index owner subtable bytes, steps = since ++ after ∧
    HeldSince font since after kind number index owner subtable bytes ∧ ∃ action ∈ subtable.actions,
      ((session font since).table kind).names.Shadowed ((session font steps).table kind).names owner action.lookup

theorem shadowed_compile {font : Font} {steps : List SessionStep} {kind : TableKind} :
    Shadowed font (steps ++ [.compile]) kind ↔ Shadowed font steps kind := by
  have recompiled := ((session_compile font steps).1.tables kind)
  constructor
  · rintro ⟨since, after, number, index, owner, subtable, bytes, whole, held, action, used, absent, present⟩
    rw [recompiled.names] at present
    rcases List.eq_nil_or_concat after with rfl | ⟨earlier, step, rfl⟩
    · -- Bytes of this compilation: no name was registered since.
      rw [List.append_nil] at whole
      rw [← whole, recompiled.names] at absent
      exact absurd absent present
    · rw [List.concat_eq_append, ← List.append_assoc] at whole
      obtain ⟨rfl, _⟩ := List.append_inj' whole rfl
      refine ⟨since, earlier, number, index, owner, subtable, bytes, rfl, ?_, action, used, absent, present⟩
      intro part isPart
      refine held part (isPart.trans ?_)
      rw [List.concat_eq_append]
      exact List.prefix_append _ _
  · rintro ⟨since, after, number, index, owner, subtable, bytes, rfl, held, action, used, absent, present⟩
    refine ⟨since, after ++ [.compile], number, index, owner, subtable, bytes, List.append_assoc .., ?_, action, used,
      absent, recompiled.names ▸ present⟩
    intro part isPart
    rcases List.prefix_concat_iff.mp isPart with rfl | earlier
    · rw [← List.append_assoc]
      exact recompiled.slot_kept (held after (List.prefix_refl _))
    · exact held part earlier

/-- Kept bytes can be made again with more names. They come out as long as they are, and as they are unless a name is
shadowed. -/
theorem remakes_of_kept {font : Font} {steps : List SessionStep} {kind : TableKind} {names : LookupNames}
    {subtable : Subtable} (bare : Bare steps) (off : font.options.variableAnchors = false)
    (orderly : ((session font steps).table kind).Orderly kind listed) (lists : names.Lists (listed ++ more))
    (found : ((session font steps).table kind).slot? number index = some (owner, ⟨subtable, some bytes⟩)) :
    ∃ since after next, steps = since ++ after ∧
      HeldSince font since after kind number index owner subtable bytes ∧
      subtable.Makes font names owner next ∧ next.length = bytes.length ∧
      (next = bytes ↔ ∀ action ∈ subtable.actions,
        ¬((session font since).table kind).names.Shadowed names owner action.lookup) := by
  obtain ⟨since, after, rfl, held, made⟩ := bare.traced found
  obtain ⟨early, late, earlyOrderly, lateOrderly⟩ := session_names_grow font since after kind
  rw [lateOrderly.lists.unique orderly.lists |>.symm, List.append_assoc] at lists
  obtain ⟨next, makes, length, same⟩ := (made.makes off).grown earlyOrderly.lists lists
  exact ⟨since, after, next, rfl, held, makes, length, same⟩

/-- All bytes of a table are current exactly if none of its names is shadowed. -/
theorem current_iff_unshadowed {font : Font} {steps : List SessionStep} {kind : TableKind} {names : LookupNames}
    (bare : Bare steps) (off : font.options.variableAnchors = false)
    (orderly : ((session font steps).table kind).Orderly kind listed) (lists : names.Lists listed) :
    (∀ (number : UInt16) (lookup : Lookup), ((session font steps).table kind).lookups[number]? = some lookup →
      lookup.Current font names) ↔ ¬Shadowed font steps kind := by
  constructor
  · rintro current ⟨since, after, number, index, owner, subtable, bytes, rfl, held, action, used, absent, present⟩
    have made : subtable.Makes font names owner bytes := by
      have atEnd := held after (List.prefix_refl _)
      simp only [LookupTable.slot?, Option.bind_eq_some_iff, Option.map_eq_some_iff] at atEnd
      obtain ⟨lookup, atNumber, slot, atIndex, same⟩ := atEnd
      cases same
      exact current number lookup atNumber _ (List.mem_of_getElem? atIndex) bytes rfl
    have atSince := held [] List.nil_prefix
    rw [List.append_nil] at atSince
    obtain ⟨early, more, sinceOrderly, endOrderly⟩ := session_names_grow font since after kind
    rw [orderly.lists.unique endOrderly.lists] at lists
    obtain ⟨first, between, next, rfl, _, makes, _, same⟩ := remakes_of_kept bare.left off sinceOrderly lists atSince
    -- The bytes are older than the scoped name, and yet are what it makes.
    refine same.mp (makes.unique made) action used ⟨?_, ?_⟩
    · obtain ⟨_, _, firstOrderly, laterOrderly⟩ := session_names_grow font first between kind
      exact firstOrderly.lists.unregistered_of_grown laterOrderly.lists absent
    · rwa [endOrderly.lists.number?_eq lists]
  · intro unshadowed number lookup found slot member content cached
    obtain ⟨index, there⟩ := LookupTable.exists_slot? found member cached
    have noMore : names.Lists (listed ++ []) := by rwa [List.append_nil]
    obtain ⟨since, after, next, rfl, held, makes, _, same⟩ := remakes_of_kept bare off orderly noMore there
    have unchanged : next = content := by
      refine same.mpr fun action used shadowed => unshadowed ?_
      refine ⟨since, after, number, index, _, _, _, rfl, held, action, used, shadowed.1, ?_⟩
      rw [← orderly.lists.number?_eq lists]
      exact shadowed.2
    exact unchanged ▸ makes

/-- Built anew, a table can be made from the subtables that were compiled, also where its bytes are then others. -/
theorem anew_makes {font : Font} {steps : List SessionStep} (bare : Bare steps)
    (off : font.options.variableAnchors = false)
    (success : (session font steps).compile.1 = .ok compiled) (kind : TableKind) :
    ∃ fresh, ((session font steps).anew.table kind).Makes font
        ((session font steps).anew.table kind).names.toList fresh ∧
      (fresh = compiled.lookups kind ↔ ¬Shadowed font steps kind) := by
  obtain ⟨recompiled, gives⟩ := session_compile font steps
  have reencoded := recompiled.tables kind
  obtain ⟨_, _, renews⟩ := anew_renews (session_sound font steps).orderly
  obtain ⟨listed, earlier, renews⟩ := renews kind
  obtain ⟨others, orderly⟩ := (session_sound font (steps ++ [.compile])).orderly kind
  cases (reencoded.names ▸ orderly.lists).unique earlier.lists
  have renewed : ∀ (number : UInt16) (lookup : Lookup),
      ((session font (steps ++ [.compile])).table kind).lookups[number]? = some lookup →
        ((session font steps).anew.table kind).lookups[number]? = some lookup.withoutBytes := by
    intro number lookup found
    obtain ⟨before, atNumber, same⟩ := reencoded.withoutBytes found
    rw [← same]
    exact renews.lookups number before atNumber
  have noMore : ((session font steps).anew.table kind).names.Lists (listed ++ []) := by
    rw [List.append_nil]
    exact renews.lists
  obtain ⟨fresh, makes, same⟩ := ((gives compiled success).lookups kind).remade orderly renews.lists renewed
    fun found => by
      obtain ⟨_, _, next, _, _, makes, length, _⟩ := remakes_of_kept bare.compile off orderly noMore found
      exact ⟨next, makes, length⟩
  rw [current_iff_unshadowed bare.compile off orderly renews.lists, shadowed_compile] at same
  exact ⟨fresh, makes, same⟩

end Compiler

/-- After any session whose lookups are added without bytes, a compiler built anew compiles too. A table comes out as it
was compiled with kept bytes exactly if none of them is shadowed. -/
theorem Compiler.compiled_anew_iff_unshadowed (font : Font) (steps : List SessionStep) (bare : Bare steps)
    (off : font.options.variableAnchors = false) (compiled : CompiledTables)
    (success : (session font steps).compile.1 = .ok compiled) :
    ∃ fresh, (session font steps).anew.compile.1 = .ok fresh ∧
      ∀ kind, fresh.lookups kind = compiled.lookups kind ↔ ¬Shadowed font steps kind := by
  obtain ⟨sameFont, noSets, renews⟩ := anew_renews (session_sound font steps).orderly
  rw [(session_sound font steps).sameFont] at sameFont noSets
  choose lookups makes same using anew_makes bare off success
  have empty : (session font steps).anew.sets.isEmpty = true := by
    rw [noSets]
    rfl
  refine ⟨_, compile_of_makes empty ?_ fun kind => by rw [sameFont]; exact makes kind, ?_⟩
  · intro kind
    obtain ⟨listed, _, renews⟩ := renews kind
    exact ⟨listed, renews.lists⟩
  · rintro (_ | _)
    · exact same .substitution
    · exact same .positioning

def stillFont : Font where
  glyphs := .ofList [("alef", 3), ("beh", 4)]
  options := { variableAnchors := false }

def replacing (name : String) (glyph substitute : GlyphId) : Lookup where
  name
  kind := .singleSubstitution
  slots := [⟨.single ⟨.plain, (∅ : Std.TreeMap GlyphId SingleEntry).insert glyph ⟨substitute, {}⟩⟩, none⟩]

/-- A context that refers to another lookup as `swap`. -/
def swappingContext : Lookup where
  name := "main"
  kind := .chainingSubstitution
  slots := [⟨.chaining ⟨[], [.ofList [3]], [], [⟨0, "swap"⟩]⟩, none⟩]

/-- The scoped name is registered before the context is compiled, which fails once. -/
def scopedSession : List SessionStep :=
  [.add swappingContext, .add (replacing "swap" 3 4), .declare .substitution "main.swap", .compile,
    .add (replacing "main.swap" 4 3)]

/-- The scoped name is registered after the context has been compiled. -/
def shadowingSession : List SessionStep :=
  [.add swappingContext, .add (replacing "swap" 3 4), .compile, .add (replacing "main.swap" 4 3)]

theorem Compiler.compiled_anew_iff_unshadowed_of_scoped :
    ∃ compiled, Bare scopedSession ∧ stillFont.options.variableAnchors = false ∧
      (session stillFont scopedSession).compile.1 = .ok compiled ∧
      ∃ fresh, (session stillFont scopedSession).anew.compile.1 = .ok fresh ∧
        ∀ kind, fresh.lookups kind = compiled.lookups kind ↔ ¬Shadowed stillFont scopedSession kind := by
  have succeeds : (session stillFont scopedSession).compile.1.isOk = true := by decide +kernel
  obtain ⟨compiled, success⟩ := exists_of_isOk succeeds
  have bare : Bare scopedSession := by simp [Bare, scopedSession, swappingContext, replacing]
  exact ⟨compiled, bare, rfl, success, compiled_anew_iff_unshadowed stillFont scopedSession bare rfl compiled success⟩

/-- Kept bytes refer to the lookup that the name stood for, and those made anew to the one that it stands for. -/
theorem Compiler.shadowed_bytes_differ_from_anew :
    Bare shadowingSession ∧ stillFont.options.variableAnchors = false ∧ ∃ compiled fresh,
      (session stillFont shadowingSession).compile.1 = .ok compiled ∧
      (session stillFont shadowingSession).anew.compile.1 = .ok fresh ∧
      fresh.substitution ≠ compiled.substitution := by
  have differ : (match (session stillFont shadowingSession).compile.1,
      (session stillFont shadowingSession).anew.compile.1 with
    | .ok compiled, .ok fresh => fresh.substitution != compiled.substitution
    | _, _ => false) = true := by decide +kernel
  refine ⟨by simp [Bare, shadowingSession, swappingContext, replacing], rfl, ?_⟩
  generalize (session stillFont shadowingSession).compile.1 = kept at differ ⊢
  generalize (session stillFont shadowingSession).anew.compile.1 = made at differ ⊢
  cases kept with
  | error error => cases differ
  | ok compiled =>
    cases made with
    | error error => cases differ
    | ok fresh => exact ⟨compiled, fresh, rfl, rfl, bne_iff_ne.mp differ⟩

end Kashida
