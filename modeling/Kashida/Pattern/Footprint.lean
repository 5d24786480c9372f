import Kashida.Pattern.Basic
import Kashida.Text.ByteRanges
import Std.Data.TreeMap

/-! The room that a pattern takes as an automaton over the bytes of a text, once to be read forward and once to be read
backward. Patterns that take too much are refused. -/
namespace Kashida.Pattern

inductive Direction where
  | forward
  | backward
deriving DecidableEq

/-- The size of an automaton: its states, and the bytes that they hold beside themselves. -/
structure Footprint where
  states : Nat := 0
  extra : Nat := 0

namespace Footprint

def stateSize : Nat := 32

/-- The room of a transition under a range of bytes. -/
def transitionSize : Nat := 8

/-- The room of one way out of a branching state. -/
def branchSize : Nat := 4

def size (footprint : Footprint) : Nat := stateSize * footprint.states + footprint.extra

def limit : Nat := 10 * Nat.pow 2 20

/-- Adds states with what they hold, unless that is too much. -/
def add (states extra : Nat) (footprint : Footprint) : Option Footprint :=
  let footprint : Footprint := ⟨footprint.states + states, footprint.extra + extra⟩
  if footprint.size ≤ limit then some footprint else none

def iterate (grow : Footprint → Option Footprint) : (times : Nat) → Footprint → Option Footprint
  | 0, footprint => some footprint
  | times + 1, footprint =>
      match grow footprint with
      | some footprint => iterate grow times footprint
      | none => none

end Footprint

/-- A table of states by what they are for. Every slot holds one of them, and a later one takes the slot over. -/
structure SlotTable where
  slots : Nat
  entries : Std.TreeMap Nat (List Nat × Nat) := ∅

namespace SlotTable

def slot (table : SlotTable) (key : List Nat) : Nat :=
  let hash : UInt64 := key.foldl (fun hash n => (hash ^^^ n.toUInt64) * 1099511628211) 14695981039346656037
  hash.toNat % table.slots

def find? (table : SlotTable) (key : List Nat) : Option Nat :=
  match table.entries.get? (table.slot key) with
  | some (key', state) => if key = key' then some state else none
  | none => none

def insert (table : SlotTable) (key : List Nat) (state : Nat) : SlotTable :=
  { table with entries := table.entries.insert (table.slot key) (key, state) }

end SlotTable

/-- An automaton that grows, and the states of it that can be used again. -/
structure Growth where
  footprint : Footprint
  table : SlotTable

namespace Growth

/-- The state for a key: one that is in the table, or a new one. -/
def state? (key : List Nat) (extra : Nat) (growth : Growth) : Option (Nat × Growth) :=
  match growth.table.find? key with
  | some state => some (state, growth)
  | none =>
      let state := growth.footprint.states
      (growth.footprint.add 1 extra).map fun footprint => (state, ⟨footprint, growth.table.insert key state⟩)

/-- The states that read a row backward, from its first range, which leads to `next`. -/
def readBackward? (next : Nat) : List ByteRange → Growth → Option Growth
  | [], growth => some growth
  | range :: ranges, growth =>
      match growth.state? [next, range.low.toNat, range.high.toNat] 0 with
      | some (state, growth) => readBackward? state ranges growth
      | none => none

/-- Rows by their first ranges. -/
def groupRows : List (List ByteRange) → List (ByteRange × List (List ByteRange))
  | [] => []
  | [] :: rows => groupRows rows
  | (range :: ranges) :: rows =>
      match groupRows rows with
      | (range', inside) :: others =>
          if range = range' then (range, ranges :: inside) :: others
          else (range, [ranges]) :: (range', inside) :: others
      | [] => [(range, [ranges])]

mutual

/-- The state that reads one of some rows and leads to `last`. Rows that start alike share their first state, and states
that lead on in the same way are one. -/
def readForward? (last : Nat) : (length : Nat) → List (List ByteRange) → Growth → Option (Nat × Growth)
  | 0, _, growth => some (last, growth)
  | length + 1, rows, growth =>
      match groupRows rows with
      | [] => some (last, growth)
      | groups =>
          match transitions? last length groups growth with
          | some (key, growth) => growth.state? key (Footprint.transitionSize * groups.length)
          | none => none
termination_by length => (length, 0)

def transitions? (last length : Nat) :
    List (ByteRange × List (List ByteRange)) → Growth → Option (List Nat × Growth)
  | [], growth => some ([], growth)
  | (range, rows) :: groups, growth =>
      match readForward? last length rows growth with
      | some (next, growth) =>
          (transitions? last length groups growth).map fun (key, growth) =>
            (range.low.toNat :: range.high.toNat :: next :: key, growth)
      | none => none
termination_by groups => (length, groups.length + 1)

end

end Growth

namespace Footprint

/-- Cuts alternatives where one of them ends. -/
def chunks :
    (done : List (List (List UInt8))) → (chunk : List (List UInt8)) → List (List UInt8) → List (List (List UInt8))
  | done, chunk, [] => (chunk.reverse :: done).reverse
  | done, chunk, [] :: texts =>
      if chunk.isEmpty && !done.isEmpty && done.all List.isEmpty then chunks done chunk texts
      else chunks (chunk.reverse :: done) [] texts
  | done, chunk, text :: texts => chunks done (text :: chunk) texts

/-- Alternative texts of bytes, which share their states as long as they are alike. -/
def ofTexts : (length : Nat) → List (List UInt8) → Footprint
  | 0, _ => {}
  | length + 1, texts =>
      let chunks := chunks [] [] texts
      if chunks.all List.isEmpty then {}
      else
        let ways := (chunks.filter fun chunk => !chunk.isEmpty).length + (chunks.length - 1)
        chunks.foldl (fun footprint chunk =>
          let bytes := (chunk.filterMap List.head?).eraseDups
          let own : Footprint := match bytes with
            | [] => {}
            | [_] => ⟨1, 0⟩
            | bytes => ⟨1, transitionSize * bytes.length⟩
          bytes.foldl (fun footprint byte =>
            let rests := chunk.filterMap fun text => if text.head? = some byte then some text.tail else none
            let inside := ofTexts length rests
            ⟨footprint.states + inside.states, footprint.extra + inside.extra⟩)
            ⟨footprint.states + own.states, footprint.extra + own.extra⟩)
          ⟨1, branchSize * ways⟩

end Footprint

/-- What is added to an automaton, one thing after the other. -/
inductive Layout where
  /-- States that take the same room wherever they stand. -/
  | states (count extra : Nat)
  /-- A set of characters by its rows of bytes. -/
  | rows (direction : Direction) (rows : List (List ByteRange))
  | both (first second : Layout)
  | repeated (times : Nat) (layout : Layout)

namespace Layout

def append : Layout → Layout → Layout
  | .states count extra, .states count' extra' => .states (count + count') (extra + extra')
  | first, second => .both first second

instance : Append Layout := ⟨append⟩

def times (count : Nat) : Layout → Layout
  | .states each extra => .states (count * each) (count * extra)
  | layout => .repeated count layout

def ofList (layouts : List Layout) : Layout := layouts.foldr append (.states 0 0)

/-- Branching states with two ways out of each. -/
def branches (count : Nat) : Layout := .states count (count * 2 * Footprint.branchSize)

def ofSet (direction : Direction) (set : CharSet) : Layout :=
  if set.ranges.all fun range => range.2 < 0x80 then .states 2 (Footprint.transitionSize * set.ranges.size)
  else .rows direction (set.ranges.toList.flatMap ByteRange.rows)

def growRows : Direction → List (List ByteRange) → Footprint → Option Footprint
  | .forward, list, footprint => do
      let grown ← footprint.add 1 0
      let (_, growth) ← Growth.readForward? footprint.states 4 list ⟨grown, { slots := 10000 }⟩
      return growth.footprint
  | .backward, list, footprint => do
      let grown ← footprint.add 2 (Footprint.branchSize * list.length)
      let growth ← list.foldlM (fun growth row => growth.readBackward? (footprint.states + 1) row)
        ({ footprint := grown, table := { slots := 1000 } } : Growth)
      return growth.footprint

/-- The automaton after the layout has been added to it. -/
def grow : Layout → Footprint → Option Footprint
  | .states count extra, footprint => footprint.add count extra
  | .rows direction list, footprint => growRows direction list footprint
  | .both first second, footprint =>
      match first.grow footprint with
      | some footprint => second.grow footprint
      | none => none
  | .repeated times layout, footprint => Footprint.iterate layout.grow times footprint

end Layout

def bytesOf (direction : Direction) (chars : List Char) : List UInt8 :=
  let bytes := chars.flatMap String.utf8EncodeChar
  if direction = .forward then bytes else bytes.reverse

namespace Layout

/-- Alternatives that are all texts, and the state in which they end. -/
def ofTexts (direction : Direction) (texts : List (List Char)) : Layout :=
  let texts := texts.map (bytesOf direction)
  let inside := Footprint.ofTexts (texts.foldl (fun length text => max length text.length) 0) texts
  .states (inside.states + 1) inside.extra

/-- Alternatives. The states that part and join them stand behind the second one. -/
def ofAlternatives : List Layout → Layout
  | first :: second :: others =>
      let ways := (others.length + 2) * Footprint.branchSize
      first ++ second ++ .states 2 ways ++ ofList others
  | layouts => ofList layouts

/-- A sequence, whose last part comes first where it is read backward. -/
def ofSequence (direction : Direction) (layouts : List Layout) : Layout :=
  ofList (if direction = .forward then layouts else layouts.reverse)

/-- A repetition of a part that takes a character in every round, or of one that may take none. -/
def ofRepetition (inside : Layout) (consumes : Bool) (least : Nat) : Option Nat → Layout
  | none =>
      if 0 < least then inside.times least ++ branches 1
      else if consumes then branches 1 ++ inside
      else inside ++ branches 2 ++ .states 1 0
  | some most =>
      if least = 0 && most = 1 then branches 1 ++ inside ++ .states 1 0
      else if least = most then inside.times least
      else
        (if least = 0 then .states 1 0 else inside.times least) ++ .states 1 0 ++
          (branches 1 ++ inside).times (most - least)

end Layout

namespace Node

mutual

def layout (direction : Direction) : Node → Layout
  | .empty => .states 1 0
  | .text chars => .states (bytesOf direction chars).length 0
  | .one set _ => .ofSet direction set
  | .holds _ => .states 1 0
  | .sequence nodes => .ofSequence direction (layouts direction nodes)
  | .either nodes =>
      match allTexts? nodes with
      | some texts => .ofTexts direction texts
      | none => .ofAlternatives (layouts direction nodes)
  | .repeated node least most _ => .ofRepetition (node.layout direction) node.consumes least most
  | .group node =>
      match direction with
      | .forward => .states 1 0 ++ node.layout direction ++ .states 1 0
      | .backward => node.layout direction

def layouts (direction : Direction) : List Node → List Layout
  | [] => []
  | node :: nodes => node.layout direction :: layouts direction nodes

end

mutual

/-- Every match begins at the start of the text. -/
def startsText : Node → Bool
  | .holds condition => condition = .textStart
  | .sequence nodes => firstStartsText nodes
  | .either nodes => allStartText nodes
  | .repeated node least _ _ => 0 < least && node.startsText
  | .group node => node.startsText
  | _ => false

def firstStartsText : List Node → Bool
  | [] => false
  | node :: nodes => node.startsText || (node.isVacuous && firstStartsText nodes)

def allStartText : List Node → Bool
  | [] => true
  | node :: nodes => node.startsText && allStartText nodes

end

mutual

/-- Every match ends at the end of the text. -/
def endsText : Node → Bool
  | .holds condition => condition = .textEnd
  | .sequence nodes => lastEndsText nodes
  | .either nodes => allEndText nodes
  | .repeated node least _ _ => 0 < least && node.endsText
  | .group node => node.endsText
  | _ => false

def lastEndsText : List Node → Bool
  | [] => false
  | node :: nodes => lastEndsText nodes || (node.endsText && allVacuous nodes)

def allEndText : List Node → Bool
  | [] => true
  | node :: nodes => node.endsText && allEndText nodes

end

/-- The whole automaton of a pattern: states that skip what comes before a match, unless there can be nothing before it,
the pattern itself, whose extent is recorded where it is read forward, and an accepting state. -/
def footprint? (direction : Direction) (node : Node) : Option Footprint :=
  let (anchored, whole) := match direction with
    | .forward => (node.startsText, Node.group node)
    | .backward => (node.endsText, node)
  let start : Layout :=
    if anchored then .states 1 0 else .states 3 (Footprint.transitionSize + 2 * Footprint.branchSize)
  (start ++ whole.layout direction ++ .states 1 0).grow {}

/-- The pattern does not take too much room in either direction. -/
def fits (node : Node) : Bool := (node.footprint? .forward).isSome && (node.footprint? .backward).isSome

end Node

end Kashida.Pattern
