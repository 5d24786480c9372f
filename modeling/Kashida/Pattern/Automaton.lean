import Kashida.Pattern.Basic
import Kashida.Text.CharClass

/-! Matching by automata. A node becomes steps that lead from one to the next; a text is read once, with all steps at
which a match may have arrived, and holds a match as soon as one of them accepts. -/
namespace Kashida.Pattern

namespace Assertion

def isWord (ascii : Bool) : Option Char → Bool
  | some c => (if ascii then CharClass.asciiWord else CharClass.word).contains c
  | none => false

/-- Whether the condition holds between two characters; none stands for the end of the text. -/
def holdsBetween (before after : Option Char) : Assertion → Bool
  | .textStart => before.isNone
  | .textEnd => after.isNone
  | .lineStart carriage =>
      before.isNone || before == some '\n' || (carriage && before == some '\r' && after != some '\n')
  | .lineEnd carriage =>
      after.isNone ||
        (if carriage then after == some '\r' || (after == some '\n' && before != some '\r') else after == some '\n')
  | .wordBoundary ascii => isWord ascii before != isWord ascii after
  | .noWordBoundary ascii => isWord ascii before == isWord ascii after
  | .wordStart ascii => !isWord ascii before && isWord ascii after
  | .wordEnd ascii => isWord ascii before && !isWord ascii after
  | .noWordBefore ascii => !isWord ascii before
  | .noWordAfter ascii => !isWord ascii after

end Assertion

/-- What has to happen before a match may go on. Steps are known by their positions in a list of steps. -/
inductive Step where
  | accept
  | char (c : Char) (next : Nat)
  | one (set : CharSet) (next : Nat)
  | holds (condition : Assertion) (next : Nat)
  | branch (nexts : List Nat)

structure Automaton where
  steps : Array Step
  start : Nat

namespace Automaton

/-- Adds a step and starts with it. -/
def push (automaton : Automaton) (step : Step) : Automaton :=
  let position := automaton.steps.size
  ⟨automaton.steps.push step, position⟩

def replace (automaton : Automaton) (position : Nat) (step : Step) : Automaton :=
  { automaton with steps := automaton.steps.setIfInBounds position step }

def iterate (extend : Automaton → Automaton) : (times : Nat) → Automaton → Automaton
  | 0, automaton => automaton
  | times + 1, automaton => iterate extend times (extend automaton)

/-- Goes through `extend` or past it. -/
def optional (extend : Automaton → Automaton) (past : Nat) (automaton : Automaton) : Automaton :=
  let inside := extend automaton
  inside.push (.branch [inside.start, past])

/-- Goes through `extend`, then past it or through it again. The branching step stands in front so that `extend` can
lead back to it. -/
def loop (extend : Automaton → Automaton) (automaton : Automaton) : Automaton :=
  let past := automaton.start
  let home := automaton.push (.branch [past])
  let inside := extend home
  inside.replace home.start (.branch [inside.start, past])

end Automaton

namespace Node

mutual

/-- Puts the steps of a node in front of an automaton. -/
def prepend : Node → Automaton → Automaton
  | .empty, automaton => automaton
  | .text chars, automaton => chars.foldr (fun c automaton => automaton.push (.char c automaton.start)) automaton
  | .one set _, automaton => automaton.push (.one set automaton.start)
  | .holds condition, automaton => automaton.push (.holds condition automaton.start)
  | .sequence nodes, automaton => prependAll nodes automaton
  | .either nodes, automaton => prependEach nodes automaton.start [] automaton
  | .repeated node 0 none _, automaton =>
      let past := automaton.start
      Automaton.optional (Automaton.loop (prepend node)) past automaton
  | .repeated node (least + 1) none _, automaton =>
      Automaton.iterate (prepend node) least (Automaton.loop (prepend node) automaton)
  | .repeated node least (some most) _, automaton =>
      let past := automaton.start
      Automaton.iterate (prepend node) least
        (Automaton.iterate (Automaton.optional (prepend node) past) (most - least) automaton)
  | .group node, automaton => prepend node automaton

def prependAll : List Node → Automaton → Automaton
  | [], automaton => automaton
  | [node], automaton => prepend node automaton
  | node :: nodes, automaton => prepend node (prependAll nodes automaton)

/-- Puts each of some nodes in front of the same step, and branches to their starts. -/
def prependEach : List Node → (next : Nat) → (starts : List Nat) → Automaton → Automaton
  | [], _, starts, automaton => automaton.push (.branch starts)
  | node :: nodes, next, starts, automaton =>
      let automaton := prepend node { automaton with start := next }
      prependEach nodes next (automaton.start :: starts) automaton

end

def toAutomaton (node : Node) : Automaton := node.prepend ⟨#[.accept], 0⟩

end Node

/-- Where a match may be at some position: whether it has been found, and the steps that wait for a character. -/
structure Arrival where
  found : Bool
  waiting : List Step
  /-- The last position at which each step was followed. -/
  visits : Array Nat

namespace Automaton

/-- Follows all steps that take no character, with the steps that still have to be followed last. Every step is followed
once at a position, so `unseen` need not be more than their number. -/
def arrive (steps : Array Step) (position : Nat) (before after : Option Char) (unseen : Nat) (visits : Array Nat)
    (waiting : List Step) : List Nat → Arrival
  | [] => ⟨false, waiting, visits⟩
  | i :: pending =>
      if visits.getD i 0 = position then arrive steps position before after unseen visits waiting pending
      else
        match unseen, steps[i]? with
        | unseen + 1, some step =>
            let visits := visits.setIfInBounds i position
            match step with
            | .accept => ⟨true, waiting, visits⟩
            | .char _ _ | .one _ _ => arrive steps position before after unseen visits (step :: waiting) pending
            | .holds condition next =>
                arrive steps position before after unseen visits waiting
                  (if condition.holdsBetween before after then next :: pending else pending)
            | .branch nexts => arrive steps position before after unseen visits waiting (nexts ++ pending)
        | _, _ => ⟨false, waiting, visits⟩
termination_by pending => (unseen, pending.length)
decreasing_by all_goals simp [wfParam, Prod.lex_def]

/-- Where a waiting step goes on after a character. -/
def advance? (c : Char) : Step → Option Nat
  | .char expected next => if c = expected then some next else none
  | .one set next => if set.contains c then some next else none
  | _ => none

/-- Reads a text from a position on, where some steps have been reached. A match may begin at every position. Positions
count from one. -/
def search (automaton : Automaton) (position : Nat) (visits : Array Nat) (before : Option Char) (reached : List Nat)
    (text : List Char) : Bool :=
  let steps := automaton.steps
  match arrive steps position before text.head? steps.size visits [] (automaton.start :: reached) with
  | ⟨found, waiting, visits⟩ =>
      if found then true
      else
        match text with
        | [] => false
        | c :: text => automaton.search (position + 1) visits (some c) (waiting.filterMap (advance? c)) text

/-- The text holds a match somewhere. -/
def isMatch (automaton : Automaton) (text : String) : Bool :=
  automaton.search 1 (.replicate automaton.steps.size 0) none [] text.toList

end Automaton

end Kashida.Pattern
