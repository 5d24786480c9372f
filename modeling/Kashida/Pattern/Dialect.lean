import Kashida.Pattern.Automaton
import Kashida.Pattern.Beginning
import Kashida.Pattern.Footprint
import Kashida.Pattern.Parser

/-! Patterns as tests of names. -/
namespace Kashida.Pattern

/-- The levels of nesting that a pattern may have. -/
def maxDepth : Nat := 250

/-- The test of names that a pattern spells: a match anywhere in the name. Patterns that are nested too deep are refused
like those that cannot be read, and so are those that need an automaton and would take too much room. -/
def compile? (pattern : String) : Option (String → Bool) :=
  match parse? pattern with
  | none => none
  | some ⟨node, depth⟩ =>
      if maxDepth < depth then none
      else
        match node.texts? with
        | some texts => some fun name =>
            let bytes := name.toList.flatMap String.utf8EncodeChar
            texts.any fun text => occursIn text bytes
        | none =>
            if node.fits then
              let automaton := node.toAutomaton
              some automaton.isMatch
            else none

end Kashida.Pattern
