import Kashida.Bytes.Buffer
import Kashida.Font
import Kashida.Lookup.Names
import Kashida.Rule.Chaining
import Kashida.Tables.Coverage

/-! Chaining contexts: lookups that apply where the glyphs around match. -/
namespace Kashida

/-- A lookup that applies at a position of the input. -/
structure ChainedAction where
  position : UInt16
  lookup : String
deriving DecidableEq

/-- The glyphs at each position, in document order. -/
structure ChainedContext where
  backtrack : List GlyphSet
  input : List GlyphSet
  lookahead : List GlyphSet
  actions : List ChainedAction
deriving DecidableEq

/-- An action with its place in the list, which is the position of a bare name. -/
def ChainedAction.ofRule (rule : ActionRule) (place : Nat) : Except WriteError ChainedAction :=
  match rule with
  | .record position lookup | .pair position lookup => .ok ⟨position, lookup⟩
  | .name lookup => do return ⟨← count16 place, lookup⟩

namespace ChainedContext

/-- The glyphs at each of several positions. -/
def resolvePositions (font : Font) (positions : List (List String)) : Except ResolveError (List GlyphSet) :=
  positions.mapM font.resolveAll

def ofRule (font : Font) (rule : ChainingRule) : Except CompileError ChainedContext := do
  let actions ← rule.actions.zipIdx.mapM fun (action, place) => ChainedAction.ofRule action place
  let backtrack ← resolvePositions font rule.backtrack
  let input ← resolvePositions font rule.input
  let lookahead ← resolvePositions font rule.lookahead
  return ⟨backtrack, input, lookahead, actions⟩

/-- The position and lookup number of an action. Names are resolved inside the lookup that owns the context. -/
def resolveAction (names : LookupNames) (owner : String) (context : ChainedContext) (action : ChainedAction) :
    Except CompileError (UInt16 × UInt16) := do
  if context.input.length ≤ action.position.toNat then throw (.write .badValue)
  return (action.position, ← names.resolve owner action.lookup)

/-- Coverages of the backtrack come first, closest to the input first. -/
def coverages (context : ChainedContext) : List Coverage :=
  (context.backtrack.reverse ++ context.input ++ context.lookahead).map .ofSet

/-- A count and the offsets of as many coverages. -/
def offsetBlock (offsets : List UInt16) : Except WriteError (List UInt8) := do
  return word16 (← count16 offsets.length) ++ words16 offsets

/-- The table with resolved actions. -/
def layout (context : ChainedContext) (actions : List (UInt16 × UInt16)) : Except WriteError (List UInt8) := do
  let coverages := context.coverages
  let headerSize := 10 + 2 * coverages.length + 4 * actions.length
  let (offsets, _) ← OffsetCounter.advanceAll ⟨headerSize⟩ (coverages.map Coverage.size)
  let rest := offsets.drop context.backtrack.length
  let backtrack ← offsetBlock (offsets.take context.backtrack.length)
  let input ← offsetBlock (rest.take context.input.length)
  let lookahead ← offsetBlock (rest.drop context.input.length)
  let actionCount ← count16 actions.length
  let coverageBytes ← coverages.mapM Coverage.encode
  return word16 3 ++ backtrack ++ input ++ lookahead ++ word16 actionCount ++
    (actions.flatMap fun (position, lookup) => word16 position ++ word16 lookup) ++ coverageBytes.flatten

def encode (names : LookupNames) (owner : String) (context : ChainedContext) : Except CompileError (List UInt8) := do
  let actions ← context.actions.mapM (context.resolveAction names owner)
  context.layout actions

end ChainedContext

end Kashida
