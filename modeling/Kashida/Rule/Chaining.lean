import Kashida.Json.Decoder

/-! Chaining rules: the classes at each position of a context, and the lookups that apply inside it. -/
namespace Kashida

/-- A lookup to apply: with its position in a record or in a pair, or by name alone, where its place in the list is the
position. -/
inductive ActionRule where
  | record (position : UInt16) (lookup : String)
  | pair (position : UInt16) (lookup : String)
  | name (lookup : String)
deriving DecidableEq

/-- A record is kept whole, two levels inside its rule, until it is known to be none of the other forms. -/
def ActionRule.ofJson? : Json → Option ActionRule
  | .object members => do
      if (Json.object members).canKeep (Json.maxLevels - 2) then
        return .record (← Json.required? Json.toUInt16? (members.lookup "position"))
          (← Json.required? Json.toString? (members.lookup "lookup"))
      else none
  | .array [position, lookup] => do return .pair (← position.toUInt16?) (← lookup.toString?)
  | .string lookup => some (.name lookup)
  | _ => none

structure ChainingRule where
  backtrack : List (List String)
  input : List (List String)
  lookahead : List (List String)
  actions : List ActionRule
deriving DecidableEq

def ChainingRule.ofJson? (json : Json) : Option ChainingRule := do
  let [backtrack, input, lookahead, actions] ← json.record?
    ["backtrack", "input", "lookahead", "lookuprecords"] | none
  let positions := Json.withDefault? [] (Json.toList? (Json.toList? Json.toString?))
  return ⟨← positions backtrack, ← positions input, ← positions lookahead,
    ← Json.withDefault? [] (Json.toList? ActionRule.ofJson?) actions⟩

end Kashida
