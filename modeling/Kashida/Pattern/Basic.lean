import Kashida.Text.CharSet

/-! Patterns over text: sets of characters, conditions on positions, and their compositions. Every composition is put
into a plain form when it is made: sequences and alternatives are flat, characters in a row are one text, and
alternatives of single characters are a set. -/
namespace Kashida.Pattern

/-- A condition on a position between two characters. -/
inductive Assertion where
  | textStart
  | textEnd
  | lineStart (carriage : Bool)
  | lineEnd (carriage : Bool)
  | wordBoundary (ascii : Bool)
  | noWordBoundary (ascii : Bool)
  | wordStart (ascii : Bool)
  | wordEnd (ascii : Bool)
  | noWordBefore (ascii : Bool)
  | noWordAfter (ascii : Bool)
deriving DecidableEq

inductive Node where
  | empty
  /-- Characters in a row, at least one. -/
  | text (chars : List Char)
  /-- A character of a set, which was written where all characters count or where only ASCII does. -/
  | one (set : CharSet) (ascii : Bool)
  | holds (condition : Assertion)
  | sequence (nodes : List Node)
  | either (nodes : List Node)
  /-- At least `least` times, and at most `most` times if that is given; as often as possible if it is greedy. -/
  | repeated (node : Node) (least : Nat) (most : Option Nat) (greedy : Bool)
  /-- A group that records what it matched. -/
  | group (node : Node)

namespace Node

mutual

/-- The fewest characters of a match; none if there may be no match at all. -/
def least? : Node → Option Nat
  | .empty => some 0
  | .text chars => some chars.length
  | .one set _ => if set.ranges.isEmpty then none else some 1
  | .holds _ => some 0
  | .sequence nodes => sumLeast? nodes
  | .either nodes => minLeast? nodes
  | .repeated node least _ _ => node.least?.map (least * ·)
  | .group node => node.least?

def sumLeast? : List Node → Option Nat
  | [] => some 0
  | node :: nodes =>
      match node.least?, sumLeast? nodes with
      | some first, some others => some (first + others)
      | _, _ => none

def minLeast? : List Node → Option Nat
  | [] => none
  | [node] => node.least?
  | node :: nodes =>
      match node.least?, minLeast? nodes with
      | some first, some others => some (min first others)
      | _, _ => none

end

/-- Every match takes a character. -/
def consumes (node : Node) : Bool := node.least?.any (0 < ·)

mutual

/-- No match takes a character. -/
def isVacuous : Node → Bool
  | .empty => true
  | .text _ => false
  | .one _ _ => false
  | .holds _ => true
  | .sequence nodes => allVacuous nodes
  | .either nodes => allVacuous nodes
  | .repeated node _ most _ => most.isSome && node.isVacuous
  | .group node => node.isVacuous

def allVacuous : List Node → Bool
  | [] => true
  | node :: nodes => node.isVacuous && allVacuous nodes

end

mutual

/-- The same node written twice. A group is only the same as itself. -/
def same : Node → Node → Bool
  | .empty, .empty => true
  | .text chars, .text chars' => chars = chars'
  | .one set ascii, .one set' ascii' => set = set' && ascii = ascii'
  | .holds condition, .holds condition' => condition = condition'
  | .sequence nodes, .sequence nodes' => allSame nodes nodes'
  | .either nodes, .either nodes' => allSame nodes nodes'
  | .repeated node least most greedy, .repeated node' least' most' greedy' =>
      least = least' && most = most' && greedy = greedy' && same node node'
  | _, _ => false

def allSame : List Node → List Node → Bool
  | [], [] => true
  | node :: nodes, node' :: nodes' => same node node' && allSame nodes nodes'
  | _, _ => false

end

/-- A set of one character is a text, and there is only one empty set. -/
def ofSet (set : CharSet) (ascii : Bool) : Node :=
  match set.ranges with
  | #[] => .one .empty true
  | #[(low, high)] => if low = high then .text [Char.ofNat low] else .one set ascii
  | _ => .one set ascii

/-- The parts of a sequence. -/
def parts : Node → List Node
  | .empty => []
  | .sequence nodes => nodes
  | node => [node]

/-- Puts a part in front of others. -/
def attach : Node → List Node → List Node
  | .text chars, .text others :: nodes => .text (chars ++ others) :: nodes
  | node, nodes => node :: nodes

def ofSequence (nodes : List Node) : Node :=
  match (nodes.flatMap parts).foldr attach [] with
  | [] => .empty
  | [node] => node
  | nodes => .sequence nodes

def text? : Node → Option (List Char)
  | .text chars => some chars
  | _ => none

/-- The texts that some nodes are, if all of them are texts. -/
def allTexts? (nodes : List Node) : Option (List (List Char)) := nodes.mapM text?

def branches : Node → List Node
  | .either nodes => nodes
  | node => [node]

def singleChar? : Node → Option Char
  | .text [c] => some c
  | _ => none

def set? : Node → Option CharSet
  | .one set _ => some set
  | _ => none

def parts? : Node → Option (List Node)
  | .sequence nodes => some nodes
  | _ => none

/-- Alternatives as one set if all are single characters or all are sets. -/
def unite? (nodes : List Node) : Option Node :=
  match nodes.mapM singleChar? with
  | some chars => some (ofSet (CharSet.empty.insertCodes (chars.map Char.toNat)) false)
  | none => (nodes.mapM set?).map fun sets => ofSet (sets.foldl CharSet.union .empty) false

def ofBranches (nodes : List Node) : Node :=
  match nodes.flatMap branches with
  | [node] => node
  | nodes => (unite? nodes).getD (.either nodes)

/-- How many parts two sequences share at their start. -/
def sharedLength : List Node → List Node → Nat
  | node :: nodes, node' :: nodes' => if same node node' then sharedLength nodes nodes' + 1 else 0
  | _, _ => 0

/-- Alternatives that are all sequences, with what they share at their start in front of them. -/
def lift? (nodes : List Node) : Option Node :=
  match nodes.mapM parts? with
  | some (first :: others) =>
      let length := others.foldl (fun length parts => min length (sharedLength first parts)) first.length
      if length = 0 then none
      else
        let rest := (first :: others).map fun parts => ofSequence (parts.drop length)
        some (ofSequence (first.take length ++ [ofBranches rest]))
  | _ => none

def ofAlternatives (nodes : List Node) : Node :=
  match ofBranches nodes with
  | .either nodes => (lift? nodes).getD (.either nodes)
  | node => node

/-- Repeats a node. What takes no character need not be repeated more than once. -/
def ofRepetition (node : Node) (least : Nat) (most : Option Nat) (greedy : Bool) : Node :=
  let once := node.isVacuous
  let least := if once then min least 1 else least
  let most := if once then some (min (most.getD 1) 1) else most
  match least, most with
  | 0, some 0 => .empty
  | 1, some 1 => node
  | least, most => .repeated node least most greedy

end Node

end Kashida.Pattern
