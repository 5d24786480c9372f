import Kashida.Error
import Std.Data.TreeMap

/-! Lookup names of one table, numbered in the order of their first registration. -/
namespace Kashida

/-- The two tables that lookups belong to. -/
inductive TableKind where
  | substitution
  | positioning
deriving DecidableEq

def TableKind.text : TableKind → String
  | .substitution => "GSUB"
  | .positioning => "GPOS"

/-- Names and numbers, each found from the other. The numbers are those below the size. -/
structure LookupNames where
  names : Std.TreeMap Nat String := ∅
  numbers : Std.TreeMap String UInt16 := ∅

namespace LookupNames

def size (lookups : LookupNames) : Nat := lookups.names.size

def number? (lookups : LookupNames) (name : String) : Option UInt16 := lookups.numbers[name]?

/-- All names with their numbers, ascending. -/
def toList (lookups : LookupNames) : List (Nat × String) := lookups.names.toList

def name? (lookups : LookupNames) (index : Nat) : Option String := lookups.names[index]?

/-- The number of a name, which is registered if it is new. A table has 65536 numbers. -/
def register (lookups : LookupNames) (table : TableKind) (name : String) :
    Except ResolveError UInt16 × LookupNames :=
  match lookups.number? name with
  | some number => (.ok number, lookups)
  | none =>
      if lookups.size ≤ 65535 then
        let number := UInt16.ofNat lookups.size
        (.ok number, ⟨lookups.names.insert lookups.size name, lookups.numbers.insert name number⟩)
      else (.error (.unknownLookup table.text name), lookups)

/-- The number of a name used inside a lookup: a name scoped by that lookup comes first. -/
def resolve (lookups : LookupNames) (owner name : String) : Except ResolveError UInt16 :=
  match lookups.number? (owner ++ "." ++ name) with
  | some number => .ok number
  | none =>
      match lookups.number? name with
      | some number => .ok number
      | none => .error (.unknownLookup owner name)

end LookupNames

end Kashida
