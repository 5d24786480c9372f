import Kashida.Number.Binary64

/-! JSON values whose objects keep their members in the order of first appearance. Numbers keep what tells an integer
from a number written with a fraction or an exponent. -/
namespace Kashida

/-- A number as written: `coefficient * 10 ^ exponent` with a sign. -/
structure JsonNumber where
  negative : Bool
  coefficient : Nat
  exponent : Int
  /-- Written without a fraction and without an exponent. -/
  plain : Bool
deriving DecidableEq

inductive Json where
  | null
  | bool (value : Bool)
  | number (value : JsonNumber)
  | string (value : String)
  | array (items : List Json)
  | object (members : List (String × Json))

namespace JsonNumber

/-- The integer that is written. A negative zero is a number but no integer. -/
def toInt? (n : JsonNumber) : Option Int :=
  if n.plain ∧ ¬(n.negative ∧ n.coefficient = 0) then
    some (if n.negative then -n.coefficient else n.coefficient)
  else none

/-- The nearest binary64 number, if it is finite. -/
def toBinary64? (n : JsonNumber) : Option Binary64 :=
  (Binary64.ofDecimal n.negative n.coefficient n.exponent).toFinite?

end JsonNumber

namespace Json

def ofInt (n : Int) : Json := .number ⟨n < 0, n.natAbs, 0, true⟩

def ofNat (n : Nat) : Json := ofInt n

/-- Sets a member: a name that is already there keeps its place and takes the new value. -/
def putMember (name : String) (value : Json) : List (String × Json) → List (String × Json)
  | [] => [(name, value)]
  | (other, old) :: rest =>
      if other = name then (name, value) :: rest else (other, old) :: putMember name value rest

def member? (name : String) : Json → Option Json
  | .object members => members.lookup name
  | _ => none

end Json

end Kashida
