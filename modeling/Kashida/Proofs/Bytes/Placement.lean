import Kashida.Bytes.Blocks
import Kashida.Bytes.Buffer
import Kashida.Proofs.Bytes.Reading
import Kashida.Proofs.Fallible
import Kashida.Variation.Store
import Mathlib.Algebra.GroupWithZero.Nat

/-! Numbers that fit their fields, and blocks that are found by their offsets. -/
namespace Kashida

theorem count16_eq_ok_iff : count16 n = .ok x ↔ n ≤ 65535 ∧ x.toNat = n := by
  unfold count16
  split
  · rename_i fits
    rw [Except.ok.injEq, ← UInt16.toNat_inj, UInt16.toNat_ofNat']
    constructor
    · intro same
      omega
    · intro same
      omega
  · rename_i large
    simp only [reduceCtorEq, false_iff]
    omega

theorem offset16_eq_ok_iff : offset16 n = .ok x ↔ n ≤ 65535 ∧ x.toNat = n := by
  rw [← count16_eq_ok_iff]
  unfold offset16 count16
  split <;> simp

theorem count16_eq_error_iff : count16 n = .error error ↔ 65535 < n ∧ error = .badValue := by
  unfold count16
  split
  · rename_i fits
    simp only [reduceCtorEq, false_iff]
    omega
  · rename_i large
    rw [Except.error.injEq, eq_comm, and_iff_right (by omega)]

theorem offset16_eq_error_iff : offset16 n = .error error ↔ 65535 < n ∧ error = .offsetOverflow := by
  unfold offset16
  split
  · rename_i fits
    simp only [reduceCtorEq, false_iff]
    omega
  · rename_i large
    rw [Except.error.injEq, eq_comm, and_iff_right (by omega)]

theorem position32_eq_ok_iff : position32 n = .ok x ↔ n ≤ 4294967295 ∧ x.toNat = n := by
  unfold position32
  split
  · rename_i fits
    rw [Except.ok.injEq, ← UInt32.toNat_inj, UInt32.toNat_ofNat']
    constructor
    · intro same
      omega
    · intro same
      omega
  · rename_i large
    simp only [reduceCtorEq, false_iff]
    omega

theorem coordinate16_eq_ok_iff : coordinate16 n = .ok x ↔ (-32768 ≤ n ∧ n ≤ 32767) ∧ x.toInt = n := by
  unfold coordinate16
  split
  · rename_i fits
    rw [Except.ok.injEq, ← Int16.toInt_inj, Int16.toInt_ofInt_of_le (by omega) (by omega)]
    exact ⟨fun same => ⟨fits, same.symm⟩, fun same => same.2.symm⟩
  · rename_i outside
    simp only [reduceCtorEq, false_iff]
    exact fun inside => outside inside.1

theorem coordinate16_eq_error_iff :
    coordinate16 n = .error error ↔ ¬(-32768 ≤ n ∧ n ≤ 32767) ∧ error = .badValue := by
  unfold coordinate16
  split
  · rename_i fits
    simp [fits]
  · rename_i outside
    rw [Except.error.injEq]
    exact ⟨fun same => ⟨outside, same.symm⟩, fun same => same.2.symm⟩

/-- The bytes stand in the data at this position. -/
def Stands (data : List UInt8) (position : Nat) (bytes : List UInt8) : Prop :=
  ∃ front back, data = front ++ bytes ++ back ∧ front.length = position

namespace Stands

/-- What a reader finds, and where it stops. -/
theorem readAt (scope : Scope) {read : ReadM ε α} (inner : Stands scope.data position bytes)
    (found : Reads read bytes value) :
    scope.readAt position read = .ok (value, scope.base + position + bytes.length) := by
  obtain ⟨before, behind, placed, rfl⟩ := inner
  exact Scope.readAt_of_reads found placed

/-- The scope that starts at a block holds the block and what follows it. -/
theorem offset (scope : Scope) (inner : Stands scope.data position bytes) :
    ∃ back, scope.offset position = ⟨scope.base + position, bytes ++ back⟩ := by
  obtain ⟨before, behind, placed, rfl⟩ := inner
  obtain ⟨base, data⟩ := scope
  subst placed
  exact ⟨behind, by rw [List.append_assoc, Scope.offset_front]⟩

end Stands

open DeltaSets (positions)

theorem positions_length (start : Nat) (sizes : List Nat) : (positions start sizes).length = sizes.length := by
  induction sizes generalizing start with
  | nil => rfl
  | cons size sizes ih => simp only [positions, List.length_cons, ih]

theorem getElem?_positions (start : Nat) (sizes : List Nat) (index : Nat) :
    (positions start sizes)[index]? = if index < sizes.length then some (start + (sizes.take index).sum) else none := by
  induction sizes generalizing start index with
  | nil => rfl
  | cons size sizes ih =>
    cases index with
    | zero => simp [positions]
    | succ index => simp [positions, ih, Nat.add_assoc]

theorem positions_eq_map (start : Nat) (sizes : List Nat) :
    positions start sizes = (List.range sizes.length).map fun index => start + (sizes.take index).sum := by
  apply List.ext_getElem?
  intro index
  rw [getElem?_positions, List.getElem?_map]
  split
  · rename_i inside
    rw [List.getElem?_range inside, Option.map_some]
  · rename_i outside
    rw [List.getElem?_eq_none (by rw [List.length_range]; omega), Option.map_none]

/-- Blocks that follow one another stand at their positions. -/
theorem stands_blocks (front back : List UInt8) (blocks : List (List UInt8)) :
    List.Forall₂ (Stands (front ++ blocks.flatten ++ back)) (positions front.length (blocks.map List.length))
      blocks := by
  induction blocks generalizing front with
  | nil => exact .nil
  | cons block blocks ih =>
    refine .cons ⟨front, blocks.flatten ++ back, by simp, rfl⟩ ?_
    simpa [List.append_assoc] using ih (front ++ block)

theorem stands_at_offsets (front back : List UInt8) {blocks : List (List UInt8)} {offsets : List UInt16}
    (placed : List.Forall₂ (fun position offset => offset16 position = .ok offset)
      (positions front.length (blocks.map List.length)) offsets) :
    List.Forall₂ (fun offset block => Stands (front ++ blocks.flatten ++ back) offset.toNat block) offsets blocks := by
  have stands := stands_blocks front back blocks
  generalize front ++ blocks.flatten ++ back = data at stands ⊢
  generalize positions front.length (blocks.map List.length) = starts at placed stands
  induction stands generalizing offsets with
  | nil =>
    cases placed
    exact .nil
  | cons here _ ih =>
    cases placed with
    | cons fits placed =>
      refine .cons ?_ (ih placed)
      rwa [(offset16_eq_ok_iff.mp fits).2]

theorem offsets_ne_zero {start : Nat} {sizes : List Nat} {offsets : List UInt16} (positive : 0 < start)
    (placed : List.Forall₂ (fun position offset => offset16 position = .ok offset)
      (positions start sizes) offsets) : ∀ offset ∈ offsets, offset ≠ 0 := by
  rintro offset member rfl
  obtain ⟨position, listed, fits⟩ := exists_of_forall₂ placed member
  obtain ⟨index, found⟩ := List.mem_iff_getElem?.mp listed
  have zero : 0 = position := (offset16_eq_ok_iff.mp fits).2
  rw [getElem?_positions] at found
  split at found
  · cases found
    omega
  · cases found

/-- A table found in the data, with where it starts and where it ends. -/
structure Located (α : Type) where
  table : α
  start : Nat
  stop : Nat
deriving DecidableEq

/-- The table that an offset into a scope leads to. -/
def Scope.locate (scope : Scope) (read : ReadM ε α) (offset : UInt16) : Except ε (Located α) := do
  let (table, stop) ← scope.readAt offset.toNat read
  return ⟨table, scope.base + offset.toNat, stop⟩

/-- The table that an offset leads to, where offset zero leads nowhere. -/
def Scope.locate? (scope : Scope) (read : ReadM ε α) (offset : UInt16) : Except ε (Option (Located α)) :=
  if offset = 0 then .ok none else (scope.locate read offset).map some

namespace Scope

theorem of_locate?_eq_ok {scope : Scope} {read : ReadM ε α} {offset : UInt16} {found : Option (Located α)}
    (located : scope.locate? read offset = .ok found) :
    (offset = 0 ↔ found = none) ∧ ∀ table ∈ found, table.start = scope.base + offset.toNat := by
  unfold locate? at located
  split at located
  · rename_i zero
    cases located
    simp [zero]
  · rename_i nonzero
    simp only [locate, map_eq_ok_iff, bind_eq_ok_iff, pure_eq_ok_iff] at located
    obtain ⟨_, ⟨_, _, rfl⟩, rfl⟩ := located
    simp [nonzero]

theorem start_of_locate {scope : Scope} {read : ReadM ε α} {offset : UInt16} {found : Located α}
    (located : scope.locate read offset = .ok found) : found.start = scope.base + offset.toNat := by
  simp only [locate, bind_eq_ok_iff, pure_eq_ok_iff] at located
  obtain ⟨_, _, rfl⟩ := located
  rfl

theorem starts_of_locate {scope : Scope} {read : ReadM ε α} {places : List Nat} {offsets : List UInt16}
    {located : List (Located α)}
    (placed : List.Forall₂ (fun place offset => offset16 place = .ok offset) places offsets)
    (found : List.Forall₂ (fun offset table => scope.locate read offset = .ok table) offsets located) :
    located.map Located.start = places.map (scope.base + ·) := by
  refine (map_eq_map_iff.mpr (forall₂_trans ?_ placed found)).symm
  intro place offset table fits here
  rw [start_of_locate here, (offset16_eq_ok_iff.mp fits).2]

theorem locate?_of_ne_zero {scope : Scope} {read : ReadM ε α} {offset : UInt16} (nonzero : offset ≠ 0) :
    scope.locate? read offset = (scope.locate read offset).map some := if_neg nonzero

/-- An array of records, with what the records lead to: `follow` counts from the start of the array. Its stop is that of
the records. -/
def locateArray (scope : Scope) (read : ReadM ε (List ι)) (follow : Scope → ι → Except ε α) (offset : UInt16) :
    Except ε (Located (List α)) := do
  let array := scope.offset offset.toNat
  let records ← array.locate read 0
  let results ← records.table.mapM (follow array)
  return { records with table := results }

theorem locateArray_eq {scope array : Scope} {read : ReadM ε (List ι)} {follow : Scope → ι → Except ε α}
    {offset : UInt16} {records : List ι} {results : List α} (isArray : scope.offset offset.toNat = array)
    (stands : Stands array.data 0 header) (found : Reads read header records)
    (each : List.Forall₂ (fun record result => follow array record = .ok result) records results) :
    scope.locateArray read follow offset = .ok ⟨results, array.base, array.base + header.length⟩ := by
  simp only [locateArray, isArray, locate, bind_eq_ok_iff, pure_eq_ok_iff, mapM_eq_ok_iff]
  exact ⟨_, ⟨_, stands.readAt array found, rfl⟩, results, each, rfl⟩

end Scope

/-- Tables that follow one another, from `start` to `stop`. -/
def Contiguous (start : Nat) (tables : List (Located α)) (stop : Nat) : Prop :=
  match tables with
  | [] => start = stop
  | first :: rest => first.start = start ∧ Contiguous first.stop rest stop

/-- The offsets of blocks lead to what stands in them, and the blocks follow one another. -/
theorem locate_blocks {read : ReadM ε α} (origin : Nat) (front back : List UInt8) {blocks : List (List UInt8)}
    {values : List α} {offsets : List UInt16}
    (placed : List.Forall₂ (fun position offset => offset16 position = .ok offset)
      (positions front.length (blocks.map List.length)) offsets)
    (found : List.Forall₂ (Reads read) blocks values) :
    ∃ located, List.Forall₂ (fun offset table =>
        Scope.locate ⟨origin, front ++ blocks.flatten ++ back⟩ read offset = .ok table) offsets located ∧
      located.map Located.table = values ∧
      Contiguous (origin + front.length) located (origin + (front ++ blocks.flatten).length) := by
  induction found generalizing front offsets with
  | nil =>
    cases placed
    exact ⟨[], .nil, rfl, by simp [Contiguous]⟩
  | @cons block value blocks values here _ ih =>
    cases placed with
    | @cons _ offset _ offsets fits placed =>
      have atFront := (offset16_eq_ok_iff.mp fits).2
      have whole : front ++ (block :: blocks).flatten = front ++ block ++ blocks.flatten := by simp
      rw [← List.length_append] at placed
      obtain ⟨located, each, tables, contiguous⟩ := ih (front ++ block) placed
      have stands : Stands (front ++ block ++ blocks.flatten ++ back) offset.toNat block :=
        ⟨front, blocks.flatten ++ back, by simp, atFront.symm⟩
      have first := Stands.readAt ⟨origin, _⟩ stands here
      refine ⟨⟨value, origin + front.length, origin + (front ++ block).length⟩ :: located, ?_,
        by rw [List.map_cons, tables], ?_⟩
      · rw [whole]
        refine .cons ?_ each
        rw [Scope.locate, first, atFront, List.length_append, ← Nat.add_assoc]
        rfl
      · rw [whole]
        exact ⟨rfl, contiguous⟩

theorem exists_count16_iff {n : Nat} : (∃ x, count16 n = .ok x) ↔ n ≤ 65535 := by
  constructor
  · rintro ⟨x, counted⟩
    exact (count16_eq_ok_iff.mp counted).1
  · intro fits
    exact ⟨_, if_pos fits⟩

theorem exists_offset16_iff {n : Nat} : (∃ x, offset16 n = .ok x) ↔ n ≤ 65535 := by
  constructor
  · rintro ⟨x, placed⟩
    exact (offset16_eq_ok_iff.mp placed).1
  · intro fits
    exact ⟨_, if_pos fits⟩

theorem exists_offsets_iff {start : Nat} {sizes : List Nat} :
    (∃ offsets, List.Forall₂ (fun position offset => offset16 position = .ok offset) (positions start sizes) offsets) ↔
      ∀ index < sizes.length, start + (sizes.take index).sum ≤ 65535 := by
  rw [exists_forall₂_iff]
  simp only [exists_offset16_iff, List.mem_iff_getElem?, getElem?_positions]
  constructor
  · intro each index inside
    exact each _ ⟨index, if_pos inside⟩
  · rintro each position ⟨index, found⟩
    split at found
    · rename_i inside
      cases found
      exact each index inside
    · cases found

theorem placeBlocks_eq_ok_iff {encode : α → Except WriteError (List UInt8)} {start : Nat} {items : List α} :
    placeBlocks encode start items = .ok (offsets, bytes) ↔ ∃ blocks,
      List.Forall₂ (fun item block => encode item = .ok block) items blocks ∧
      List.Forall₂ (fun position offset => offset16 position = .ok offset)
        (positions start (blocks.map List.length)) offsets ∧ blocks.flatten = bytes := by
  induction items generalizing start offsets bytes with
  | nil =>
    simp only [placeBlocks, Except.ok.injEq, Prod.mk.injEq, List.forall₂_nil_left_iff]
    constructor
    · rintro ⟨rfl, rfl⟩
      exact ⟨[], rfl, .nil, rfl⟩
    · rintro ⟨_, rfl, placed, rfl⟩
      cases placed
      exact ⟨rfl, rfl⟩
  | cons item items ih =>
    simp only [placeBlocks, bind_eq_ok_iff, pure_eq_ok_iff, List.forall₂_cons_left_iff]
    constructor
    · rintro ⟨offset, fits, block, encoded, ⟨rest, behind⟩, there, same⟩
      cases same
      obtain ⟨blocks, each, placed, rfl⟩ := ih.mp there
      exact ⟨block :: blocks, ⟨block, blocks, encoded, each, rfl⟩, .cons fits placed, rfl⟩
    · rintro ⟨_, ⟨block, blocks, encoded, each, rfl⟩, placed, rfl⟩
      cases placed with
      | cons fits placed =>
        exact ⟨_, fits, block, encoded, (_, blocks.flatten), ih.mpr ⟨blocks, each, placed, rfl⟩, rfl⟩

/-- Blocks of known sizes can be placed exactly if they can be encoded and start within reach of 16-bit offsets. -/
theorem exists_placeBlocks_iff (encode : α → Except WriteError (List UInt8)) {size : α → Nat} (start : Nat)
    (items : List α) (sizes : ∀ item block, encode item = .ok block → block.length = size item) :
    (∃ result, placeBlocks encode start items = .ok result) ↔ (∀ item ∈ items, ∃ block, encode item = .ok block) ∧
      ∀ index < items.length, start + ((items.take index).map size).sum ≤ 65535 := by
  have lengths : ∀ {blocks}, List.Forall₂ (fun item block => encode item = .ok block) items blocks →
      blocks.map List.length = items.map size := fun each =>
    (map_eq_map_iff.mpr (each.imp fun item block encoded => (sizes item block encoded).symm)).symm
  have fits : (∃ offsets, List.Forall₂ (fun position offset => offset16 position = .ok offset)
      (positions start (items.map size)) offsets) ↔
      ∀ index < items.length, start + ((items.take index).map size).sum ≤ 65535 := by
    simp only [exists_offsets_iff, List.length_map, ← List.map_take]
  rw [← fits, ← exists_forall₂_iff]
  simp only [Prod.exists, placeBlocks_eq_ok_iff]
  constructor
  · rintro ⟨offsets, _, blocks, each, placed, _⟩
    rw [lengths each] at placed
    exact ⟨⟨blocks, each⟩, offsets, placed⟩
  · rintro ⟨⟨blocks, each⟩, offsets, placed⟩
    rw [← lengths each] at placed
    exact ⟨offsets, _, blocks, each, placed, rfl⟩

namespace OffsetCounter

theorem advanceAll_eq_ok_iff {counter last : OffsetCounter} {sizes : List Nat} :
    counter.advanceAll sizes = .ok (offsets, last) ↔
      List.Forall₂ (fun position offset => offset16 position = .ok offset) (positions counter.next sizes) offsets ∧
        last = ⟨counter.next + sizes.sum⟩ := by
  induction sizes generalizing counter offsets with
  | nil =>
    simp only [advanceAll, Except.ok.injEq, Prod.mk.injEq, positions, List.forall₂_nil_left_iff, List.sum_nil,
      Nat.add_zero]
    exact and_congr eq_comm eq_comm
  | cons size sizes ih =>
    simp only [advanceAll, advance, offset, bind_eq_ok_iff, pure_eq_ok_iff, positions, List.forall₂_cons_left_iff,
      List.sum_cons, ← Nat.add_assoc]
    constructor
    · rintro ⟨⟨offset, next⟩, ⟨found, here, same⟩, ⟨rest, behind⟩, there, whole⟩
      cases same
      cases whole
      obtain ⟨each, ended⟩ := ih.mp there
      exact ⟨⟨offset, rest, here, each, rfl⟩, ended⟩
    · rintro ⟨⟨offset, rest, here, each, rfl⟩, ended⟩
      exact ⟨(offset, ⟨counter.next + size⟩), ⟨offset, here, rfl⟩, (rest, last), ih.mpr ⟨each, ended⟩, rfl⟩

end OffsetCounter

end Kashida
