import Kashida.Proofs.Bytes.Scalars
import Kashida.Tables.Anchor
import Kashida.Tables.Coverage
import Mathlib.Data.List.Induction

/-! Scopes and cursors that are made from one another view the right bytes. Whatever is read on the way, and whether it
succeeds or not, a scope shows the data from its base on, and a cursor stays inside its scope. -/
namespace Kashida

namespace Scope

/-- The scope shows the data from its base on, and its base is no further than at the end. -/
structure Views (scope : Scope) (data : List UInt8) : Prop where
  shown : scope.data = data.drop scope.base
  total : scope.base + scope.data.length = data.length

theorem views_ofBytes (data : List UInt8) : (ofBytes data).Views data := ⟨rfl, Nat.zero_add _⟩

theorem Views.offset {scope : Scope} {data : List UInt8} (views : scope.Views data) (distance : Nat) :
    (scope.offset distance).Views data := by
  constructor
  · simp only [Scope.offset, views.shown, List.drop_drop]
  · have total := views.total
    simp only [Scope.offset, List.length_drop]
    omega

theorem Views.offset_past_end {scope : Scope} {data : List UInt8} (views : scope.Views data) {distance : Nat}
    (past : scope.data.length ≤ distance) : scope.offset distance = ⟨data.length, []⟩ := by
  rw [Scope.offset, Nat.min_eq_right past, views.total, List.drop_length]

end Scope

namespace Cursor

/-- The cursor has read no more than its scope holds. -/
def Inside (cursor : Cursor) : Prop := cursor.consumed ≤ cursor.scope.data.length

/-- How many bytes the cursor has still to read. -/
def left (cursor : Cursor) : Nat := cursor.rest.data.length

/-- The cursor, moved past `count` bytes. -/
def past (cursor : Cursor) (count : Nat) : Cursor := { cursor with consumed := cursor.consumed + count }

theorem left_eq (cursor : Cursor) : cursor.left = cursor.scope.data.length - cursor.consumed := by
  simp only [left, rest, Scope.offset, List.length_drop]
  omega

theorem left_past (cursor : Cursor) (count : Nat) : (cursor.past count).left = cursor.left - count := by
  rw [left_eq, left_eq, past, Nat.sub_sub]

theorem past_past (cursor : Cursor) (first second : Nat) :
    (cursor.past first).past second = cursor.past (first + second) := by
  simp only [past, Nat.add_assoc]

theorem Inside.past {cursor : Cursor} (inside : cursor.Inside) (fits : count ≤ cursor.left) :
    (cursor.past count).Inside := by
  rw [left_eq] at fits
  unfold Inside at inside ⊢
  simp only [Cursor.past]
  omega

/-- A reader whose success is decided by a condition fails at one place only. -/
theorem run_eq_error_iff {cursor behind place after : Cursor} {read : ReadM EndOfData α}
    (met : enough → ∃ value, cursor.run read = (.ok value, behind))
    (unmet : ¬enough → cursor.run read = (.error .endOfData, place)) :
    cursor.run read = (.error .endOfData, after) ↔ ¬enough ∧ after = place := by
  by_cases holds : enough
  · obtain ⟨value, run⟩ := met holds
    simp [run, holds]
  · simp [unmet holds, holds, eq_comm]

/-- A reader that takes `size` bytes at once and makes something of whatever they are. -/
def TakesAtOnce (size : Nat) (read : ReadM EndOfData α) : Prop :=
  ∃ next, read = take size >>= next ∧ ∀ bytes : List UInt8, bytes.length = size → ∃ value, next bytes = pure value

theorem takesAtOnce_scalar (kind : ScalarKind) : TakesAtOnce kind.size (scalar kind) := by
  refine ⟨_, rfl, fun bytes right => ?_⟩
  obtain ⟨value, holds, _⟩ := ScalarKind.exists_ofBytes? right
  exact ⟨value, by rw [holds]⟩

theorem takesAtOnce_word16 : TakesAtOnce 2 word16 := by
  refine ⟨_, rfl, fun bytes right => ?_⟩
  match bytes, right with
  | [a, b], _ => exact ⟨_, rfl⟩

theorem takesAtOnce_int16 : TakesAtOnce 2 int16 := by
  refine ⟨_, rfl, fun bytes right => ?_⟩
  match bytes, right with
  | [a, b], _ => exact ⟨_, rfl⟩

namespace TakesAtOnce

variable {size : Nat} {read : ReadM EndOfData α} {cursor : Cursor}

/-- Without its bytes it fails and stays. -/
theorem run_of_short (takes : TakesAtOnce size read) (short : ¬size ≤ cursor.left) :
    cursor.run read = (.error .endOfData, cursor) := by
  obtain ⟨next, rfl, _⟩ := takes
  rw [left_eq] at short
  exact run_take_bind_of_short next (by omega)

theorem run_of_fits (takes : TakesAtOnce size read) (inside : cursor.Inside) (fits : size ≤ cursor.left) :
    ∃ value, cursor.run read = (.ok value, cursor.past size) := by
  obtain ⟨next, rfl, total⟩ := takes
  have room : cursor.consumed + size ≤ cursor.scope.data.length := inside.past fits
  have length : ((cursor.scope.data.drop cursor.consumed).take size).length = size := by
    rw [List.length_take, List.length_drop]
    omega
  obtain ⟨value, result⟩ := total _ length
  refine ⟨value, ?_⟩
  rw [run_take_bind_of_fits next room, result]
  rfl

end TakesAtOnce

/-- Words are read as far as they go. Where they run out, the cursor is behind the last whole one. -/
theorem run_words16 {cursor : Cursor} (inside : cursor.Inside) (count : Nat) :
    (count ≤ cursor.left / 2 → ∃ values, cursor.run (words16 count) = (.ok values, cursor.past (count * 2))) ∧
    (¬count ≤ cursor.left / 2 →
      cursor.run (words16 count) = (.error .endOfData, cursor.past (cursor.left / 2 * 2))) := by
  induction count generalizing cursor with
  | zero => exact ⟨fun _ => ⟨[], rfl⟩, fun none => absurd (Nat.zero_le _) none⟩
  | succ count ih =>
    rw [words16, run_bind]
    -- A first word leaves one word less for the others; without one, no byte is taken.
    by_cases one : 2 ≤ cursor.left
    · obtain ⟨first, run⟩ := takesAtOnce_word16.run_of_fits inside one
      obtain ⟨enough, short⟩ := ih (inside.past one)
      have words : (cursor.left - 2) / 2 = cursor.left / 2 - 1 := by omega
      rw [left_past, words] at enough short
      simp only [run, run_bind]
      constructor
      · intro more
        obtain ⟨rest, restRun⟩ := enough (by omega)
        refine ⟨first :: rest, ?_⟩
        rw [restRun, past_past, Nat.succ_mul, Nat.add_comm]
        rfl
      · intro fewer
        rw [short (by omega), past_past]
        have whole : 2 + (cursor.left / 2 - 1) * 2 = cursor.left / 2 * 2 := by omega
        rw [whole]
    · rw [takesAtOnce_word16.run_of_short one]
      refine ⟨fun more => absurd more (by omega), fun _ => ?_⟩
      have none : cursor.left / 2 * 2 = 0 := by omega
      rw [none]
      rfl

end Cursor

/-- A reader keeps its scope and stays inside it, also when it fails. -/
def StaysInside (read : ReadM ε α) : Prop :=
  ∀ cursor : Cursor, cursor.Inside → (cursor.run read).2.scope = cursor.scope ∧ (cursor.run read).2.Inside

namespace StaysInside

theorem of_still {read : ReadM ε α} (still : ∀ cursor : Cursor, (cursor.run read).2 = cursor) : StaysInside read := by
  intro cursor inside
  rw [still]
  exact ⟨rfl, inside⟩

theorem pure (value : α) : StaysInside (Pure.pure value : ReadM ε α) := of_still fun _ => rfl

theorem throw (error : ε) : StaysInside (MonadExcept.throw error : ReadM ε α) := of_still fun _ => rfl

theorem check (condition : Bool) : StaysInside (Cursor.check condition) := by
  cases condition with
  | true => exact pure ()
  | false => exact throw _

theorem ensure (count : Nat) : StaysInside (Cursor.ensure count) := of_still fun cursor => by rw [Cursor.run_ensure]

theorem bind {read : ReadM ε α} {next : α → ReadM ε β} (first : StaysInside read)
    (second : ∀ value, StaysInside (next value)) : StaysInside (read >>= next) := by
  intro cursor inside
  obtain ⟨scope, insideToo⟩ := first cursor inside
  rw [Cursor.run_bind]
  generalize cursor.run read = found at scope insideToo ⊢
  obtain ⟨outcome, middle⟩ := found
  cases outcome with
  | error error => exact ⟨scope, insideToo⟩
  | ok value =>
    obtain ⟨same, insideStill⟩ := second value middle insideToo
    exact ⟨same.trans scope, insideStill⟩

theorem step {read : ReadM EndOfData α} (inner : StaysInside read) : StaysInside (Cursor.step read) := by
  intro cursor inside
  have same : (cursor.run (Cursor.step read)).2 = (cursor.run read).2 := by
    simp only [Cursor.run, Cursor.step]
    obtain ⟨outcome, after⟩ := read cursor
    cases outcome <;> rfl
  rw [same]
  exact inner cursor inside

theorem takesAtOnce {read : ReadM EndOfData α} (takes : Cursor.TakesAtOnce size read) : StaysInside read := by
  intro cursor inside
  by_cases fits : size ≤ cursor.left
  · obtain ⟨value, run⟩ := takes.run_of_fits inside fits
    rw [run]
    exact ⟨rfl, inside.past fits⟩
  · rw [takes.run_of_short fits]
    exact ⟨rfl, inside⟩

theorem word16 : StaysInside (Cursor.step Cursor.word16) := (takesAtOnce Cursor.takesAtOnce_word16).step

theorem int16 : StaysInside (Cursor.step Cursor.int16) := (takesAtOnce Cursor.takesAtOnce_int16).step

theorem words16 (count : Nat) : StaysInside (Cursor.words16 count) := by
  induction count with
  | zero => exact pure []
  | succ count ih => exact (takesAtOnce Cursor.takesAtOnce_word16).bind fun _ => ih.bind fun _ => pure _

theorem coverage : StaysInside Coverage.read := by
  refine word16.bind fun format => ?_
  split
  · exact word16.bind fun count => (words16 count.toNat).step.bind fun _ => pure _
  · exact throw _

theorem variation : StaysInside Anchor.readVariation :=
  word16.bind fun _ => word16.bind fun _ => word16.bind fun _ => (check _).bind fun _ => pure _

theorem anchor : StaysInside Anchor.read := by
  refine word16.bind fun format => ?_
  split
  · exact int16.bind fun _ => int16.bind fun _ => pure _
  split
  · exact int16.bind fun _ => int16.bind fun _ => word16.bind fun _ => word16.bind fun _ => (check _).bind fun _ =>
      variation.bind fun _ => variation.bind fun _ => pure _
  · exact throw _

end StaysInside

/-- What a cursor can be asked for. -/
inductive ReadRequest where
  | scalar (kind : ScalarKind)
  | words (count : Nat)
  | coverage
  | anchor
  | room (count : Nat)
  | check (condition : Bool)

/-- The cursor behind a request, met or not. -/
def Cursor.after (cursor : Cursor) : ReadRequest → Cursor
  | .scalar kind => (cursor.run (scalar kind)).2
  | .words count => (cursor.run (words16 count)).2
  | .coverage => (cursor.run Coverage.read).2
  | .anchor => (cursor.run Anchor.read).2
  | .room count => (cursor.run (ensure count)).2
  | .check condition => (cursor.run (Cursor.check condition)).2

theorem Cursor.after_inside {cursor : Cursor} (inside : cursor.Inside) (request : ReadRequest) :
    (cursor.after request).scope = cursor.scope ∧ (cursor.after request).Inside := by
  cases request with
  | scalar kind => exact StaysInside.takesAtOnce (takesAtOnce_scalar kind) cursor inside
  | words count => exact StaysInside.words16 count cursor inside
  | coverage => exact StaysInside.coverage cursor inside
  | anchor => exact StaysInside.anchor cursor inside
  | room count => exact StaysInside.ensure count cursor inside
  | check condition => exact StaysInside.check condition cursor inside

/-- What a reader can do with the scopes and cursors it has. These are numbered in the order in which they were made,
and a step with a number that is not given out does nothing. -/
inductive ReaderStep where
  /-- Makes the scope that starts at a distance into a scope. -/
  | offset (scope distance : Nat)
  /-- Makes a cursor at the start of a scope. -/
  | start (scope : Nat)
  /-- Makes the scope of what a cursor has still to read. -/
  | rest (cursor : Nat)
  | copy (cursor : Nat)
  /-- Moves a cursor. -/
  | read (cursor : Nat) (request : ReadRequest)

/-- The scopes and cursors that a reader has. -/
structure Reading where
  scopes : List Scope
  cursors : List Cursor

namespace Reading

def take (reading : Reading) : ReaderStep → Reading
  | .offset scope distance =>
      let made := reading.scopes[scope]?.map fun scope => scope.offset distance
      { reading with scopes := reading.scopes ++ made.toList }
  | .start scope => { reading with cursors := reading.cursors ++ (reading.scopes[scope]?.map Scope.cursor).toList }
  | .rest cursor => { reading with scopes := reading.scopes ++ (reading.cursors[cursor]?.map Cursor.rest).toList }
  | .copy cursor => { reading with cursors := reading.cursors ++ reading.cursors[cursor]?.toList }
  | .read cursor request =>
      { reading with cursors := reading.cursors.modify cursor fun cursor => cursor.after request }

/-- What a reader has after steps that start with the scope of all the data. -/
def run (data : List UInt8) (steps : List ReaderStep) : Reading := steps.foldl take ⟨[.ofBytes data], []⟩

/-- All scopes show their part of the data, and all cursors are inside such a scope. -/
structure Sound (data : List UInt8) (reading : Reading) : Prop where
  scopes : ∀ scope ∈ reading.scopes, scope.Views data
  cursors : ∀ cursor ∈ reading.cursors, cursor.scope.Views data ∧ cursor.Inside

theorem forall_mem_add {good : α → Prop} {items : List α} {made : Option α} (all : ∀ item ∈ items, good item)
    (new : ∀ item ∈ made, good item) : ∀ item ∈ items ++ made.toList, good item := by
  intro item member
  rcases List.mem_append.mp member with old | added
  · exact all item old
  · exact new item (Option.mem_toList.mp added)

theorem forall_mem_modify {good : α → Prop} {items : List α} {change : α → α} (all : ∀ item ∈ items, good item)
    (kept : ∀ item, good item → good (change item)) (place : Nat) : ∀ item ∈ items.modify place change, good item := by
  intro item member
  obtain ⟨index, found⟩ := List.mem_iff_getElem?.mp member
  rw [List.getElem?_modify, Option.map_eq_map, Option.map_eq_some_iff] at found
  obtain ⟨old, there, rfl⟩ := found
  have goodBefore := all old (List.mem_of_getElem? there)
  split
  · exact kept old goodBefore
  · exact goodBefore

/-- A step makes at most one scope or cursor, from one that is there, or moves one cursor. -/
theorem take_sound {data : List UInt8} {reading : Reading} (sound : reading.Sound data) (step : ReaderStep) :
    (reading.take step).Sound data := by
  obtain ⟨scopes, cursors⟩ := sound
  cases step with
  | offset scope distance =>
    refine ⟨forall_mem_add scopes (Option.forall_mem_map.mpr fun scope found => ?_), cursors⟩
    exact (scopes scope (List.mem_of_getElem? found)).offset distance
  | start scope =>
    refine ⟨scopes, forall_mem_add cursors (Option.forall_mem_map.mpr fun scope found => ?_)⟩
    exact ⟨scopes scope (List.mem_of_getElem? found), Nat.zero_le _⟩
  | rest cursor =>
    refine ⟨forall_mem_add scopes (Option.forall_mem_map.mpr fun cursor found => ?_), cursors⟩
    exact (cursors cursor (List.mem_of_getElem? found)).1.offset cursor.consumed
  | copy cursor =>
    exact ⟨scopes, forall_mem_add cursors fun cursor found => cursors cursor (List.mem_of_getElem? found)⟩
  | read number request =>
    refine ⟨scopes, forall_mem_modify cursors ?_ number⟩
    rintro cursor ⟨views, inside⟩
    obtain ⟨scope, insideToo⟩ := Cursor.after_inside inside request
    exact ⟨scope ▸ views, insideToo⟩

theorem run_sound (data : List UInt8) (steps : List ReaderStep) : (run data steps).Sound data := by
  induction steps using List.reverseRecOn with
  | nil =>
    refine ⟨fun scope member => ?_, fun cursor member => nomatch member⟩
    rw [List.mem_singleton.mp member]
    exact Scope.views_ofBytes data
  | append_singleton steps step ih =>
    rw [run, List.foldl_append]
    exact take_sound ih step

/-- Scopes view the right bytes. Whatever a reader has done, every scope that it has shows the data from its base on,
so that base and length always add up to the length of the data, and an offset past the end of a scope gives the empty
scope at the end of the data. Every cursor is in such a scope and has read no more than it holds. An integer is read
unless too few bytes are left, and then the cursor stays; words are read unless there are too few whole ones left, and
then the cursor is behind the last of these. -/
theorem scopes_view_right_bytes (data : List UInt8) (steps : List ReaderStep) :
    (∀ scope ∈ (run data steps).scopes, scope.data = data.drop scope.base ∧
      scope.base + scope.data.length = data.length ∧
      ∀ distance, scope.data.length ≤ distance → scope.offset distance = ⟨data.length, []⟩) ∧
    ∀ cursor ∈ (run data steps).cursors, cursor.scope.data = data.drop cursor.scope.base ∧
      cursor.scope.base + cursor.scope.data.length = data.length ∧ cursor.consumed ≤ cursor.scope.data.length ∧
      (∀ kind after, cursor.run (Cursor.scalar kind) = (.error .endOfData, after) ↔
        cursor.left < kind.size ∧ after = cursor) ∧
      ∀ count after, cursor.run (Cursor.words16 count) = (.error .endOfData, after) ↔
        cursor.left / 2 < count ∧ after = cursor.past (cursor.left / 2 * 2) := by
  obtain ⟨scopes, cursors⟩ := run_sound data steps
  constructor
  · intro scope member
    have views := scopes scope member
    exact ⟨views.shown, views.total, fun distance => views.offset_past_end⟩
  · intro cursor member
    obtain ⟨views, inside⟩ := cursors cursor member
    refine ⟨views.shown, views.total, inside, fun kind after => ?_, fun count after => ?_⟩
    · have takes := Cursor.takesAtOnce_scalar kind
      rw [← Nat.not_le]
      exact Cursor.run_eq_error_iff (takes.run_of_fits inside) takes.run_of_short
    · obtain ⟨enough, short⟩ := Cursor.run_words16 inside count
      rw [← Nat.not_le]
      exact Cursor.run_eq_error_iff enough short

/-- For a coverage that announces more glyphs than there are: it is read, and then its glyphs are read once more. -/
def cutOffSteps : List ReaderStep :=
  [.start 0, .read 0 .coverage, .rest 0, .offset 1 7, .offset 0 4, .start 3, .read 1 (.words 9), .read 1 (.scalar .u16)]

theorem scopes_view_right_bytes_of_cut_off :
    (run [0, 1, 0, 4, 0, 3, 0, 5, 9] cutOffSteps).scopes =
      [⟨0, [0, 1, 0, 4, 0, 3, 0, 5, 9]⟩, ⟨8, [9]⟩, ⟨9, []⟩, ⟨4, [0, 3, 0, 5, 9]⟩] ∧
    (run [0, 1, 0, 4, 0, 3, 0, 5, 9] cutOffSteps).cursors =
      [⟨⟨0, [0, 1, 0, 4, 0, 3, 0, 5, 9]⟩, 8⟩, ⟨⟨4, [0, 3, 0, 5, 9]⟩, 4⟩] ∧
    (Scope.mk 8 [9]).offset 2 = ⟨9, []⟩ ∧
    (Cursor.mk ⟨4, [0, 3, 0, 5, 9]⟩ 4).run (Cursor.scalar .i32) = (.error .endOfData, ⟨⟨4, [0, 3, 0, 5, 9]⟩, 4⟩) := by
  have scopes : (run [0, 1, 0, 4, 0, 3, 0, 5, 9] cutOffSteps).scopes =
      [⟨0, [0, 1, 0, 4, 0, 3, 0, 5, 9]⟩, ⟨8, [9]⟩, ⟨9, []⟩, ⟨4, [0, 3, 0, 5, 9]⟩] := by decide +kernel
  have cursors : (run [0, 1, 0, 4, 0, 3, 0, 5, 9] cutOffSteps).cursors =
      [⟨⟨0, [0, 1, 0, 4, 0, 3, 0, 5, 9]⟩, 8⟩, ⟨⟨4, [0, 3, 0, 5, 9]⟩, 4⟩] := by decide +kernel
  obtain ⟨shown, inside⟩ := scopes_view_right_bytes [0, 1, 0, 4, 0, 3, 0, 5, 9] cutOffSteps
  rw [scopes] at shown
  rw [cursors] at inside
  refine ⟨scopes, cursors, (shown ⟨8, [9]⟩ (by decide)).2.2 2 (by decide), ?_⟩
  exact ((inside ⟨⟨4, [0, 3, 0, 5, 9]⟩, 4⟩ (by decide)).2.2.2.1 .i32 _).mpr ⟨by decide, rfl⟩

end Reading

end Kashida
