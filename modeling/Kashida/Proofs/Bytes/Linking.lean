import Kashida.Proofs.Bytes.Placement

/-! Tables whose headers lead to blocks by 16-bit offsets. The format of such a table says which block an offset leads
to; the size of the header and of the blocks in front then gives its value. A writer settles on the bytes of the table
if all these values have 16 bits, and on an overflow if one has not. -/
namespace Kashida

open DeltaSets (positions)

/-- All of these positions can be written as 16-bit offsets. -/
def InReach (places : List Nat) : Prop := ∀ place ∈ places, place ≤ 65535

instance (places : List Nat) : Decidable (InReach places) :=
  inferInstanceAs (Decidable (∀ place ∈ places, place ≤ 65535))

@[simp] theorem inReach_nil : InReach [] := List.forall_mem_nil _

@[simp] theorem inReach_cons {places : List Nat} : InReach (place :: places) ↔ place ≤ 65535 ∧ InReach places :=
  List.forall_mem_cons

@[simp] theorem inReach_append {places more : List Nat} :
    InReach (places ++ more) ↔ InReach places ∧ InReach more := List.forall_mem_append

theorem inReach_flatMap {items : List α} {places : α → List Nat} :
    InReach (items.flatMap places) ↔ ∀ item ∈ items, InReach (places item) := by
  simp only [InReach, List.mem_flatMap]
  exact ⟨fun each item member place inside => each place ⟨item, member, inside⟩,
    fun each place ⟨item, member, inside⟩ => each item member place inside⟩

/-- The outcome of a writer is this value if the positions are in reach, and an overflow otherwise. -/
def Settles (outcome : Except WriteError α) (places : List Nat) (value : α) : Prop :=
  outcome = if InReach places then .ok value else .error .offsetOverflow

namespace Settles

theorem ok (value : α) : Settles (.ok value) [] value := (if_pos inReach_nil).symm

theorem eq_ok_iff {outcome : Except WriteError α} (settles : Settles outcome places value) :
    outcome = .ok result ↔ InReach places ∧ value = result := by
  rw [settles]
  by_cases reached : InReach places <;> simp [reached]

theorem offset (place : Nat) : Settles (offset16 place) [place] (.ofNat place) := by
  simp only [Settles, inReach_cons, inReach_nil, and_true]
  rfl

/-- Only what the positions say together counts, and not their order. -/
theorem of_iff {outcome : Except WriteError α} (settles : Settles outcome places value)
    (same : InReach places ↔ InReach more) : Settles outcome more value := by
  rw [Settles, ← if_congr same rfl rfl]
  exact settles

theorem bind {outcome : Except WriteError α} {next : α → Except WriteError β} (first : Settles outcome places value)
    (rest : Settles (next value) more result) : Settles (outcome >>= next) (places ++ more) result := by
  rw [Settles, first]
  by_cases reached : InReach places
  · rw [if_pos reached]
    exact rest.of_iff (by rw [inReach_append, and_iff_right reached])
  · rw [if_neg reached, if_neg fun both => reached (inReach_append.mp both).1]
    rfl

/-- Steps behind which nothing can fail. -/
theorem bind_last {outcome : Except WriteError α} {next : α → Except WriteError β}
    (first : Settles outcome places value) (rest : next value = .ok result) :
    Settles (outcome >>= next) places result := by
  have whole := first.bind (rest ▸ ok result)
  rwa [List.append_nil] at whole

theorem advanceAll (start : Nat) (sizes : List Nat) :
    Settles (OffsetCounter.advanceAll ⟨start⟩ sizes) (positions start sizes)
      ((positions start sizes).map UInt16.ofNat, ⟨start + sizes.sum⟩) := by
  induction sizes generalizing start with
  | nil => exact ok _
  | cons size sizes ih =>
    have here : Settles (OffsetCounter.advance ⟨start⟩ size) [start] (.ofNat start, ⟨start + size⟩) :=
      (offset start).bind_last rfl
    refine here.bind ((ih (start + size)).bind_last ?_)
    simp only [positions, List.map_cons, List.sum_cons, Nat.add_assoc]
    rfl

/-- Blocks that follow one another: their own positions count, and what must be in reach inside them. -/
theorem placeBlocks {encode : α → Except WriteError (List UInt8)} {block : α → List UInt8} {inside : α → List Nat}
    {items : List α} (each : ∀ item ∈ items, Settles (encode item) (inside item) (block item)) (start : Nat) :
    Settles (Kashida.placeBlocks encode start items)
      (positions start ((items.map block).map List.length) ++ items.flatMap inside)
      ((positions start ((items.map block).map List.length)).map UInt16.ofNat, (items.map block).flatten) := by
  induction items generalizing start with
  | nil => exact ok _
  | cons item items ih =>
    obtain ⟨here, there⟩ := List.forall_mem_cons.mp each
    have rest := ih there (start + (block item).length)
    refine Settles.of_iff ((offset start).bind (here.bind (bind_last rest ?_))) ?_
    · rfl
    simp only [positions, List.map_cons, List.flatMap_cons, List.cons_append, List.nil_append, inReach_cons,
      inReach_append]
    tauto

end Settles

/-- A part of a header: bytes, or the offset of the block with this number. -/
inductive HeaderPart where
  | bytes (content : List UInt8)
  | link (block : Nat)
deriving DecidableEq

namespace HeaderPart

def size : HeaderPart → Nat
  | .bytes content => content.length
  | .link _ => 2

/-- The position that a part leads to, if it leads anywhere. -/
def targets (positionOf : Nat → Nat) : HeaderPart → List Nat
  | .bytes _ => []
  | .link block => [positionOf block]

def render (positionOf : Nat → Nat) : HeaderPart → List UInt8
  | .bytes content => content
  | .link block => word16 (.ofNat (positionOf block))

theorem render_length (positionOf : Nat → Nat) (part : HeaderPart) : (part.render positionOf).length = part.size := by
  cases part with
  | bytes content => rfl
  | link block => exact word16_length _

/-- Links to as many blocks, from the block `first` on. -/
def links (first count : Nat) : List HeaderPart := (List.range' first count).map .link

@[simp] theorem link_mem_links {first count block : Nat} :
    .link block ∈ links first count ↔ first ≤ block ∧ block < first + count := by
  simp [links]

theorem sum_size_links (first count : Nat) : ((links first count).map size).sum = 2 * count := by
  simp [links, Function.comp_def, size, Nat.mul_comm]

theorem flatMap_targets_links (positionOf : Nat → Nat) (first count : Nat) :
    (links first count).flatMap (targets positionOf) = (List.range' first count).map positionOf := by
  rw [links, List.flatMap_map, List.map_eq_flatMap]
  rfl

theorem flatMap_render_links (positionOf : Nat → Nat) (first count : Nat) :
    (links first count).flatMap (render positionOf) =
      words16 (((List.range' first count).map positionOf).map UInt16.ofNat) := by
  rw [links, words16, List.flatMap_map, List.flatMap_map, List.flatMap_map]
  rfl

end HeaderPart

/-- A table as its format describes it: a header, and behind it the blocks that its links lead to. -/
structure LinkedTable where
  header : List HeaderPart
  blocks : List (List UInt8)
  linked : ∀ block, .link block ∈ header → block < blocks.length
deriving DecidableEq

namespace LinkedTable

def headerSize (table : LinkedTable) : Nat := (table.header.map HeaderPart.size).sum

/-- Where a block stands, counted from the start of the table. -/
def positionOf (table : LinkedTable) (block : Nat) : Nat :=
  table.headerSize + ((table.blocks.take block).map List.length).sum

/-- The positions that the header leads to. -/
def targets (table : LinkedTable) : List Nat := table.header.flatMap (HeaderPart.targets table.positionOf)

/-- The bytes of the table, right as long as no offset overflows. -/
def render (table : LinkedTable) : List UInt8 :=
  table.header.flatMap (HeaderPart.render table.positionOf) ++ table.blocks.flatten

/-- Links to as many blocks, as they are written. -/
def offsets (table : LinkedTable) (first count : Nat) : List UInt16 :=
  ((List.range' first count).map table.positionOf).map UInt16.ofNat

theorem length_offsets (table : LinkedTable) (first count : Nat) : (table.offsets first count).length = count := by
  simp [offsets]

theorem positionOf_zero (table : LinkedTable) : table.positionOf 0 = table.headerSize := rfl

/-- The positions of the blocks from one on. -/
theorem map_positionOf (table : LinkedTable) {first count : Nat} (all : first + count = table.blocks.length) :
    (List.range' first count).map table.positionOf =
      positions (table.positionOf first) ((table.blocks.drop first).map List.length) := by
  rw [positions_eq_map, List.range'_eq_map_range, List.map_map, List.length_map, List.length_drop,
    show table.blocks.length - first = count by omega]
  apply List.map_congr_left
  intro index _
  simp only [Function.comp_apply, positionOf, Nat.add_assoc, ← List.map_take]
  rw [List.take_add, List.map_append, List.sum_append]

theorem length_flatMap_render (parts : List HeaderPart) (positionOf : Nat → Nat) :
    (parts.flatMap (HeaderPart.render positionOf)).length = (parts.map HeaderPart.size).sum := by
  rw [List.length_flatMap]
  congr 1
  exact List.map_congr_left fun part _ => part.render_length positionOf

/-- A link that is in reach holds the position of its block, and the block stands there. -/
theorem stands_of_inReach (table : LinkedTable) (reached : InReach table.targets) {front back : List HeaderPart}
    {block : Nat} (header : table.header = front ++ .link block :: back) : ∃ offset content,
      Stands table.render (front.map HeaderPart.size).sum (word16 offset) ∧ offset.toNat = table.positionOf block ∧
      table.blocks[block]? = some content ∧ Stands table.render offset.toNat content := by
  have inside : block < table.blocks.length := table.linked block (by simp [header])
  have near : table.positionOf block ≤ 65535 := by
    refine reached _ ?_
    simp only [targets, header, List.flatMap_append, List.flatMap_cons]
    simp [HeaderPart.targets]
  have full : (UInt16.ofNat (table.positionOf block)).toNat = table.positionOf block :=
    UInt16.toNat_ofNat_of_lt' (Nat.lt_succ_of_le near)
  refine ⟨.ofNat (table.positionOf block), table.blocks[block], ?_, full, List.getElem?_eq_getElem inside, ?_⟩
  · refine ⟨front.flatMap (HeaderPart.render table.positionOf),
      back.flatMap (HeaderPart.render table.positionOf) ++ table.blocks.flatten, ?_, length_flatMap_render front _⟩
    rw [render, header, List.flatMap_append, List.flatMap_cons]
    simp only [List.append_assoc, HeaderPart.render]
  · rw [full]
    refine ⟨table.header.flatMap (HeaderPart.render table.positionOf) ++ (table.blocks.take block).flatten,
      (table.blocks.drop (block + 1)).flatten, ?_, ?_⟩
    · have split : table.blocks = table.blocks.take block ++ table.blocks[block] :: table.blocks.drop (block + 1) := by
        rw [← List.drop_eq_getElem_cons inside, List.take_append_drop]
      rw [render]
      conv_lhs => rw [split]
      rw [List.flatten_append, List.flatten_cons]
      simp only [List.append_assoc]
    · rw [List.length_append, length_flatMap_render, List.length_flatten]
      rfl

/-- Bytes without offsets. -/
def ofBytes (content : List UInt8) : LinkedTable where
  header := [.bytes content]
  blocks := []
  linked := by simp

theorem ofBytes_render (content : List UInt8) : (ofBytes content).render = content := by
  simp [render, ofBytes, HeaderPart.render]

/-- Offsets of all the blocks in turn, between other bytes. -/
def index (front back : List UInt8) (blocks : List (List UInt8)) : LinkedTable where
  header := .bytes front :: (HeaderPart.links 0 blocks.length ++ [.bytes back])
  blocks := blocks
  linked := by simp

section Index

variable {front back : List UInt8} {blocks : List (List UInt8)}

theorem index_headerSize :
    (index front back blocks).headerSize = front.length + 2 * blocks.length + back.length := by
  simp only [headerSize, index, List.map_cons, List.map_append, List.map_nil, List.sum_cons, List.sum_append,
    List.sum_nil, HeaderPart.sum_size_links, HeaderPart.size]
  omega

theorem index_places : (List.range' 0 blocks.length).map (index front back blocks).positionOf =
    positions (front.length + 2 * blocks.length + back.length) (blocks.map List.length) := by
  rw [← index_headerSize, ← positionOf_zero]
  exact map_positionOf _ (Nat.zero_add _)

theorem index_targets : (index front back blocks).targets =
    positions (front.length + 2 * blocks.length + back.length) (blocks.map List.length) := by
  rw [← index_places, ← HeaderPart.flatMap_targets_links]
  simp [targets, index, HeaderPart.targets]

theorem index_render : (index front back blocks).render = front ++
    words16 ((positions (front.length + 2 * blocks.length + back.length) (blocks.map List.length)).map UInt16.ofNat) ++
    back ++ blocks.flatten := by
  rw [← index_places, ← HeaderPart.flatMap_render_links]
  simp [render, index, HeaderPart.render]

end Index

/-- One block, whose offset stands between other bytes. -/
def single (front back block : List UInt8) : LinkedTable where
  header := [.bytes front, .link 0, .bytes back]
  blocks := [block]
  linked := by simp

section Single

variable {front back block : List UInt8}

theorem single_targets : (single front back block).targets = [front.length + (2 + back.length)] := rfl

theorem single_render : (single front back block).render =
    front ++ word16 (.ofNat (front.length + (2 + back.length))) ++ back ++ block := by
  simp [render, single, positionOf, headerSize, HeaderPart.render, HeaderPart.size]

end Single

/-- A first block, and then as many more as are counted between its offset and theirs. -/
def counted (first : List UInt8) (blocks : List (List UInt8)) : LinkedTable where
  header := .bytes (word16 1) :: .link 0 :: .bytes (word16 (.ofNat blocks.length)) ::
    HeaderPart.links 1 blocks.length
  blocks := first :: blocks
  linked := by
    intro block member
    simp only [List.mem_cons, reduceCtorEq, HeaderPart.link.injEq, HeaderPart.link_mem_links, false_or] at member
    rw [List.length_cons]
    omega

section Counted

variable (first : List UInt8) (blocks : List (List UInt8))

theorem counted_headerSize : (counted first blocks).headerSize = 6 + 2 * blocks.length := by
  simp only [headerSize, counted, List.map_cons, List.sum_cons, HeaderPart.sum_size_links, HeaderPart.size,
    word16_length]
  omega

theorem counted_places : (List.range' 1 blocks.length).map (counted first blocks).positionOf =
    positions (6 + 2 * blocks.length + first.length) (blocks.map List.length) := by
  have start : (counted first blocks).positionOf 1 = 6 + 2 * blocks.length + first.length := by
    rw [positionOf, counted_headerSize]
    rfl
  rw [← start]
  exact map_positionOf _ (Nat.add_comm 1 _)

theorem counted_targets : (counted first blocks).targets = (6 + 2 * blocks.length) ::
    positions (6 + 2 * blocks.length + first.length) (blocks.map List.length) := by
  rw [← counted_places, ← HeaderPart.flatMap_targets_links, ← counted_headerSize first, ← positionOf_zero]
  rfl

theorem counted_render : (counted first blocks).render = word16 1 ++ word16 (.ofNat (6 + 2 * blocks.length)) ++
    word16 (.ofNat blocks.length) ++
    words16 ((positions (6 + 2 * blocks.length + first.length) (blocks.map List.length)).map UInt16.ofNat) ++
    first ++ blocks.flatten := by
  rw [← counted_places, ← HeaderPart.flatMap_render_links, ← counted_headerSize first, ← positionOf_zero]
  simp [render, counted, HeaderPart.render]

end Counted

end LinkedTable

/-- A table, and the tables with offsets of their own that are among its blocks. -/
structure TablePlan where
  whole : LinkedTable
  nested : List LinkedTable := []
  inside : ∀ table ∈ nested, table.render ∈ whole.blocks := by simp
deriving DecidableEq

namespace TablePlan

/-- All positions that offsets lead to, each counted from the start of the table with the offset. -/
def targets (plan : TablePlan) : List Nat := plan.whole.targets ++ plan.nested.flatMap LinkedTable.targets

theorem targets_of_whole (whole : LinkedTable) : ({ whole } : TablePlan).targets = whole.targets :=
  List.append_nil _

end TablePlan

end Kashida
