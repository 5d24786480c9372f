import Kashida.Pattern.Basic

/-! The texts with which the matches of a pattern begin. Where there are few of them and every match is one of them, the
pattern only asks whether one of these texts occurs, and needs no automaton. -/
namespace Kashida.Pattern

/-- The bytes at the start of some matches; exact if they are the whole of every such match. -/
structure Beginning where
  bytes : List UInt8
  exact : Bool

/-- All beginnings in order of preference, or none if they are too many. -/
abbrev Beginnings := Option (List Beginning)

namespace Beginning

def empty : Beginning := ⟨[], true⟩

def ofChars (chars : List Char) : Beginning := ⟨chars.flatMap String.utf8EncodeChar, true⟩

def cut (length : Nat) (beginning : Beginning) : Beginning :=
  if length < beginning.bytes.length then ⟨beginning.bytes.take length, false⟩ else beginning

def loosen (beginning : Beginning) : Beginning := { beginning with exact := false }

/-- Joins the same bytes in a row. -/
def joinFrom : Beginning → List Beginning → List Beginning
  | first, [] => [first]
  | first, second :: others =>
      if first.bytes = second.bytes then joinFrom ⟨first.bytes, first.exact && second.exact⟩ others
      else first :: joinFrom second others

def join : List Beginning → List Beginning
  | [] => []
  | first :: others => joinFrom first others

/-- Drops what starts with something that is preferred to it. -/
def minimize (beginnings : List Beginning) : List Beginning :=
  (beginnings.foldl (fun chosen beginning =>
    if chosen.any fun other => other.bytes.isPrefixOf beginning.bytes then chosen else beginning :: chosen) []).reverse

/-- What two texts share at their start. -/
def shared : List UInt8 → List UInt8 → List UInt8
  | a :: as, b :: bs => if a = b then a :: shared as bs else []
  | _, _ => []

def sharedByAll : List Beginning → List UInt8
  | [] => []
  | first :: others => others.foldl (fun bytes other => shared bytes other.bytes) first.bytes

end Beginning

namespace Beginnings

/-- The characters of a set that are listed one by one. -/
def maxChars : Nat := 10

/-- The rounds of a repetition that are looked at. -/
def maxRounds : Nat := 10

/-- The bytes that are kept of a beginning. -/
def maxBytes : Nat := 100

/-- How many beginnings are kept. -/
def maxCount : Nat := 250

def loosen (beginnings : Beginnings) : Beginnings := beginnings.map (·.map Beginning.loosen)

/-- Nothing could be added behind any beginning. -/
def isLoose : Beginnings → Bool
  | none => true
  | some list => list.all fun beginning => !beginning.exact

/-- One after the other. What follows is added to exact beginnings only. -/
def cross (left right : Beginnings) : Beginnings :=
  match left, right with
  | none, _ => none
  | some firsts, none => crossAny firsts
  | some firsts, some seconds =>
      if maxCount < firsts.length * seconds.length then crossAny firsts
      else
        let both := firsts.flatMap fun first =>
          if first.exact then seconds.map fun second => ⟨first.bytes ++ second.bytes, second.exact⟩ else [first]
        some ((Beginning.join both).map (Beginning.cut maxBytes))
where
  crossAny (firsts : List Beginning) : Beginnings :=
    if firsts.any fun first => first.bytes.isEmpty then none else some (firsts.map Beginning.loosen)

/-- One or the other. Where they would be too many, four bytes of each have to do. -/
def union : Beginnings → Beginnings → Beginnings
  | some left, some right =>
      if left.length + right.length ≤ maxCount then some (Beginning.join (left ++ right))
      else
        let left := Beginning.join (left.map (Beginning.cut 4))
        let right := Beginning.join (right.map (Beginning.cut 4))
        if left.length + right.length ≤ maxCount then some (Beginning.join (left ++ right)) else none
  | _, _ => none

/-- A repetition, round by round as long as something can be added. -/
def rounds (inside : Beginnings) : (count : Nat) → Beginnings → Beginnings
  | 0, beginnings => beginnings
  | count + 1, beginnings => if beginnings.isLoose then beginnings else rounds inside count (beginnings.cross inside)

def ofSet (set : CharSet) : Beginnings :=
  let size := set.ranges.foldl (fun size (low, high) => size + (high + 1 - low)) 0
  if maxChars < size then none
  else
    let codes := set.ranges.toList.flatMap fun (low, high) => (List.range (high + 1 - low)).map (low + ·)
    some (codes.map fun code => .ofChars [Char.ofNat code])

def ofRepetition (inside : Beginnings) (least : Nat) (most : Option Nat) (greedy : Bool) : Beginnings :=
  let nothing : Beginnings := some [.empty]
  if least = 0 then
    let inside := if most = some 1 then inside else inside.loosen
    if greedy then inside.union nothing else nothing.union inside
  else
    let beginnings := rounds inside (min least maxRounds) nothing
    if most = some least && least ≤ maxRounds then beginnings else beginnings.loosen

end Beginnings

namespace Node

mutual

def beginnings : Node → Beginnings
  | .empty => some [.empty]
  | .text chars => some [(Beginning.ofChars chars).cut Beginnings.maxBytes]
  | .one set _ => .ofSet set
  | .holds _ => some [.empty]
  | .sequence nodes => sequenceBeginnings nodes (some [.empty])
  | .either nodes => eitherBeginnings nodes (some [])
  | .repeated node least most greedy => .ofRepetition node.beginnings least most greedy
  | .group node => node.beginnings

def sequenceBeginnings : List Node → Beginnings → Beginnings
  | [], before => before
  | node :: nodes, before =>
      if before.isLoose then before else sequenceBeginnings nodes (before.cross node.beginnings)

def eitherBeginnings : List Node → Beginnings → Beginnings
  | [], before => before
  | node :: nodes, before => eitherBeginnings nodes (before.union node.beginnings)

end

mutual

/-- Whether a match is a matter of its characters only, without conditions and without groups to record. -/
def isPure : Node → Bool
  | .empty => true
  | .text _ => true
  | .one _ _ => true
  | .holds _ => false
  | .sequence nodes => allPure nodes
  | .either nodes => allPure nodes
  | .repeated node _ _ _ => node.isPure
  | .group _ => false

def allPure : List Node → Bool
  | [] => true
  | node :: nodes => node.isPure && allPure nodes

end

end Node

namespace Beginnings

/-- Bytes that are so common that it is no use to search for them alone. -/
def isCommon (byte : UInt8) : Bool :=
  0x80 ≤ byte || ("\n\r (),-./0129:_abcdefghilmnoprstuvxy|".toList.map Char.toUInt8).contains byte

/-- Keeps fewer bytes of each as long as there are more than a limit. -/
def shorten : List (Nat × Nat) → List Beginning → List Beginning
  | [], beginnings => beginnings
  | (length, limit) :: attempts, beginnings =>
      if beginnings.length ≤ limit then beginnings
      else shorten attempts (Beginning.minimize (beginnings.map (Beginning.cut length)))

/-- What is worth searching for. A short start that several share is enough if its first byte is rare, and so is any
longer one; many long texts are shortened, unless that leaves little of them. -/
def choose (beginnings : List Beginning) : List Beginning :=
  let chosen := Beginning.minimize beginnings
  let start := Beginning.sharedByAll chosen
  if 1 < beginnings.length && start.length ≤ 3 && start.head?.any (!isCommon ·) then
    Beginning.join (chosen.map (Beginning.cut 1))
  else
    let handy := chosen.length ≤ 16 && chosen.all (·.exact)
    let chosen :=
      if 4 < start.length || (1 < start.length && !handy) then
        Beginning.join (chosen.map (Beginning.cut start.length))
      else chosen
    let shorter := shorten [(5, 10), (4, 10), (3, 64), (2, 64), (1, 10)] chosen
    if shorter.length ≤ 64 && shorter.all fun beginning => 2 < beginning.bytes.length then shorter else chosen

end Beginnings

namespace Node

/-- The number of alternative texts from which on they are always searched for as such. -/
def manyTexts : Nat := 3000

def alternativeTexts? : Node → Option (List (List UInt8))
  | .either nodes =>
      if nodes.length < manyTexts then none
      else (allTexts? nodes).map (·.map fun chars => chars.flatMap String.utf8EncodeChar)
  | _ => none

/-- The exact beginnings that are worth searching for, if all of them are exact. -/
def exactBeginnings? (node : Node) : Option (List (List UInt8)) :=
  match node.beginnings with
  | some beginnings =>
      if beginnings.isEmpty || !node.isPure || beginnings.any (·.bytes.isEmpty) then none
      else
        let chosen := Beginnings.choose beginnings
        if chosen.all (·.exact) then some (chosen.map (·.bytes)) else none
  | none => none

/-- The texts of which one must occur, if a match is nothing more than that. -/
def texts? (node : Node) : Option (List (List UInt8)) :=
  match node.exactBeginnings? with
  | some texts => some texts
  | none => node.alternativeTexts?

end Node

/-- The text occurs somewhere in another. -/
def occursIn (text : List UInt8) : List UInt8 → Bool
  | [] => text.isEmpty
  | byte :: bytes => text.isPrefixOf (byte :: bytes) || occursIn text bytes

end Kashida.Pattern
