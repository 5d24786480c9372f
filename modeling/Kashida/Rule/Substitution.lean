import Kashida.Json.Decoder

/-! Substitution rules by glyph name, in document order. -/
namespace Kashida

/-- One substitute for each glyph. -/
abbrev SingleRule := List (String × String)

/-- A list of glyphs for each glyph: what it becomes, or the components of a ligature. -/
abbrev SequenceRule := List (String × List String)

/-- What is written beside the substitutes. -/
inductive SingleFormat where
  | plain
  | tatweel
  | expansion
deriving DecidableEq

def SingleFormat.number : SingleFormat → UInt16
  | .plain => 2
  | .tatweel => 11
  | .expansion => 10

/-- How far a substitute may be elongated, and how it takes its share. -/
structure Expansion where
  minLeft : Binary64 := .zero
  maxLeft : Binary64 := .zero
  minRight : Binary64 := .zero
  maxRight : Binary64 := .zero
  weight : UInt16 := 0
  startEndLigature : UInt8 := 0
  stretchIsAbsolute : Bool := false
  shrinkIsAbsolute : Bool := false
deriving DecidableEq

/-- A substitute together with its elongation. -/
structure Elongation where
  substitute : String
  expansion : Expansion
deriving DecidableEq

abbrev ElongationRule := List (String × Elongation)

namespace Expansion

def flagBit (flag : Bool) (place : Nat) : Nat := if flag then Nat.pow 2 place else 0

/-- Three bits for the ligature kind, then one each for absolute stretch and absolute shrink. -/
def flags (expansion : Expansion) : UInt32 :=
  .ofNat (expansion.startEndLigature.toNat % 8 + flagBit expansion.stretchIsAbsolute 3 +
    flagBit expansion.shrinkIsAbsolute 4)

def ofJson? (json : Json) : Option Expansion := do
  let [minLeft, maxLeft, minRight, maxRight, weight, ligature, stretch, shrink] ← json.record?
    ["minLeftTatweel", "maxLeftTatweel", "minRightTatweel", "maxRightTatweel", "weight", "startEndLig",
      "stretchIsAbsolute", "shrinkIsAbsolute"] | none
  let value := Json.withDefault? Binary64.zero Json.toBinary64?
  return {
    minLeft := ← value minLeft
    maxLeft := ← value maxLeft
    minRight := ← value minRight
    maxRight := ← value maxRight
    weight := ← Json.withDefault? 0 Json.toUInt16? weight
    startEndLigature := ← Json.withDefault? 0 Json.toUInt8? ligature
    stretchIsAbsolute := ← Json.withDefault? false Json.toBool? stretch
    shrinkIsAbsolute := ← Json.withDefault? false Json.toBool? shrink }

end Expansion

/-- The members of the expansion stand beside the substitute, so that only an object will do. They are kept until the
whole entry, which is the second level of its rule, has been read. -/
def Elongation.ofJson? : Json → Option Elongation
  | .object members => do
      let substitute ← Json.required? Json.toString? (members.lookup "substitute")
      if members.all fun (name, value) => name = "substitute" || value.canKeep (Json.maxLevels - 2) then
        return ⟨substitute, ← Expansion.ofJson? (.object members)⟩
      else none
  | _ => none

def SingleRule.ofJson? : Json → Option SingleRule := Json.toMap? Json.toString?

def SequenceRule.ofJson? : Json → Option SequenceRule := Json.toMap? (Json.toList? Json.toString?)

def ElongationRule.ofJson? : Json → Option ElongationRule := Json.toMap? Elongation.ofJson?

end Kashida
