import Kashida.Bytes.Scalar

/-! Reading bytes: a scope is a view of the data from some position to its end, and a cursor reads forward in a
scope. -/
namespace Kashida

/-- The data from absolute position `base` on. -/
structure Scope where
  base : Nat
  data : List UInt8
deriving DecidableEq

/-- A scope and how many of its bytes have been read. -/
structure Cursor where
  scope : Scope
  consumed : Nat
deriving DecidableEq

namespace Scope

def ofBytes (data : List UInt8) : Scope := ⟨0, data⟩

/-- The scope that starts `distance` bytes into this one, and no later than at its end. -/
def offset (scope : Scope) (distance : Nat) : Scope :=
  let distance := min distance scope.data.length
  ⟨scope.base + distance, scope.data.drop distance⟩

def cursor (scope : Scope) : Cursor := ⟨scope, 0⟩

end Scope

/-- A reading step. It may move the cursor also when it fails. -/
abbrev ReadM (ε : Type) := ExceptT ε (StateM Cursor)

namespace Cursor

/-- What is still to be read. -/
def rest (cursor : Cursor) : Scope := cursor.scope.offset cursor.consumed

/-- Fails unless `count` more bytes are there. -/
def ensure (count : Nat) : ReadM EndOfData Unit := do
  let cursor ← get
  if cursor.consumed + count ≤ cursor.scope.data.length then return ()
  else throw .endOfData

/-- The next `count` bytes; without them the cursor stays. -/
def take (count : Nat) : ReadM EndOfData (List UInt8) := do
  ensure count
  let cursor ← get
  set { cursor with consumed := cursor.consumed + count }
  return (cursor.scope.data.drop cursor.consumed).take count

def scalar (kind : ScalarKind) : ReadM EndOfData Scalar := do
  let bytes ← take kind.size
  match kind.ofBytes? bytes with
  | some value => return value
  | none => throw .endOfData

def word16 : ReadM EndOfData UInt16 := do
  match ← take 2 with
  | [a, b] => return word16At a b
  | _ => throw .endOfData

def int16 : ReadM EndOfData Int16 := do
  match ← take 2 with
  | [a, b] => return (word16At a b).toInt16
  | _ => throw .endOfData

/-- Words one after the other; those read before the data ends stay read. -/
def words16 : (count : Nat) → ReadM EndOfData (List UInt16)
  | 0 => return []
  | count + 1 => do
      let first ← word16
      let rest ← words16 count
      return first :: rest

/-- A step of a table reader. -/
def step (read : ReadM EndOfData α) : ReadM ParseError α := fun cursor =>
  match read cursor with
  | (.ok value, cursor) => (.ok value, cursor)
  | (.error .endOfData, cursor) => (.error .endOfData, cursor)

def check (condition : Bool) : ReadM ParseError Unit :=
  if condition then return () else throw .badValue

/-- The outcome of a step and the cursor behind it. -/
def run (cursor : Cursor) (read : ReadM ε α) : Except ε α × Cursor := read cursor

end Cursor

end Kashida
