import Kashida.Json.Basic

/-! Decoding JSON into typed values. A decoder answers nothing for a value of another shape; which part was wrong is not
kept. -/
namespace Kashida.Json

def toBool? : Json → Option Bool
  | .bool b => some b
  | _ => none

def toString? : Json → Option String
  | .string s => some s
  | _ => none

/-- Any number, integers included. -/
def toBinary64? : Json → Option Binary64
  | .number n => n.toBinary64?
  | _ => none

/-- An integer from a closed range. -/
def toIntIn? (low high : Int) : Json → Option Int
  | .number n => n.toInt?.filter fun value => decide (low ≤ value ∧ value ≤ high)
  | _ => none

def toUInt8? (json : Json) : Option UInt8 := (json.toIntIn? 0 255).map fun n => .ofNat n.toNat

def toUInt16? (json : Json) : Option UInt16 := (json.toIntIn? 0 65535).map fun n => .ofNat n.toNat

def toInt16? (json : Json) : Option Int16 := (json.toIntIn? Int16.minValue.toInt Int16.maxValue.toInt).map .ofInt

/-- A list with any number of elements. -/
def toList? (decode : Json → Option α) : Json → Option (List α)
  | .array items => items.mapM decode
  | _ => none

/-- A map from names, in member order. -/
def toMap? (decode : Json → Option α) : Json → Option (List (String × α))
  | .object members => members.mapM fun (name, value) => (decode value).map (name, ·)
  | _ => none

/-- Null, or a value. -/
def toOption? (decode : Json → Option α) : Json → Option (Option α)
  | .null => some none
  | json => (decode json).map some

/-- The members of a record: by name in an object, where other members are ignored, or in declaration order in an array,
which may stop early but holds nothing more. -/
def record? (names : List String) : Json → Option (List (Option Json))
  | .object members => some (names.map fun name => members.lookup name)
  | .array items =>
      if items.length ≤ names.length then some (items.map some ++ List.replicate (names.length - items.length) none)
      else none
  | _ => none

/-- A member that must be there. -/
def required? (decode : Json → Option α) : Option Json → Option α
  | some json => decode json
  | none => none

/-- A member that has a default. -/
def withDefault? (default : α) (decode : Json → Option α) : Option Json → Option α
  | some json => decode json
  | none => some default

/-- The levels of arrays and objects that a document may have where its values are kept before they are decoded. -/
def maxLevels : Nat := 127

mutual

/-- A value that can be kept: it has no more than `levels` levels of arrays and objects, and its numbers are finite. -/
def canKeep : (levels : Nat) → Json → Bool
  | _, .null => true
  | _, .bool _ => true
  | _, .number n => n.toBinary64?.isSome
  | _, .string _ => true
  | 0, .array _ => false
  | levels + 1, .array items => canKeepAll levels items
  | 0, .object _ => false
  | levels + 1, .object members => canKeepMembers levels members

def canKeepAll (levels : Nat) : List Json → Bool
  | [] => true
  | item :: items => item.canKeep levels && canKeepAll levels items

def canKeepMembers (levels : Nat) : List (String × Json) → Bool
  | [] => true
  | (_, value) :: members => value.canKeep levels && canKeepMembers levels members

end

end Kashida.Json
