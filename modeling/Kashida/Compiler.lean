import Kashida.Lookup.Basic
import Kashida.Variation.Store

/-! The compiler: the lookups of both tables and the variation store that their anchors share.

Lookups are numbered by name, so that contexts can name lookups which are added later. Delta sets persist from one
compilation to the next, because the bytes of unchanged subtables refer to them. -/
namespace Kashida

/-- The registered names of a table, and the lookups added under their numbers. -/
structure LookupTable where
  names : LookupNames := {}
  lookups : Std.TreeMap UInt16 Lookup := ∅

/-- The bytes of each lookup of a table, and of the store if there is any variation. -/
structure CompiledTables where
  substitution : List (List UInt8)
  positioning : List (List UInt8)
  store : Option (List UInt8)
deriving DecidableEq

structure Compiler where
  font : Font
  sets : DeltaSets
  substitution : LookupTable := {}
  positioning : LookupTable := {}

/-- A lookup list: a count, the offset of each lookup, and the lookups. -/
def encodeLookupList (lookups : List (List UInt8)) : Except WriteError (List UInt8) := do
  let count ← count16 lookups.length
  let (offsets, _) ← OffsetCounter.advanceAll ⟨2 + 2 * lookups.length⟩ (lookups.map List.length)
  return word16 count ++ words16 offsets ++ lookups.flatten

namespace CompiledTables

def lookups (layout : CompiledTables) : TableKind → List (List UInt8)
  | .substitution => layout.substitution
  | .positioning => layout.positioning

def lookupList (layout : CompiledTables) (kind : TableKind) : Except WriteError (List UInt8) :=
  encodeLookupList (layout.lookups kind)

end CompiledTables

namespace LookupTable

/-- Added lookups in the order of their numbers. -/
def added (table : LookupTable) : List Lookup := table.lookups.toList.map Prod.snd

def find? (table : LookupTable) (name : String) : Option Lookup := do
  let number ← table.names.number? name
  table.lookups[number]?

/-- Puts a lookup under the number of its name, in place of any that is there. -/
def put (table : LookupTable) (number : UInt16) (lookup : Lookup) : LookupTable :=
  { table with lookups := table.lookups.insert number lookup }

/-- Encodes the lookups of these numbered names. The first failure ends it, and so does a name that no lookup was
added for. -/
def encodeFrom (font : Font) (kind : TableKind) (table : LookupTable) (names : List (Nat × String))
    (sets : DeltaSets) : Except CompileError (List (List UInt8)) × LookupTable × DeltaSets :=
  match names with
  | [] => (.ok [], table, sets)
  | (number, name) :: names =>
      match table.lookups[UInt16.ofNat number]? with
      | none => (.error (.resolve (.unknownLookup kind.text name)), table, sets)
      | some lookup =>
          match lookup.encode font table.names sets with
          | (.error error, lookup, sets) => (.error error, table.put (.ofNat number) lookup, sets)
          | (.ok bytes, lookup, sets) =>
              match encodeFrom font kind (table.put (.ofNat number) lookup) names sets with
              | (.ok rest, table, sets) => (.ok (bytes :: rest), table, sets)
              | (.error error, table, sets) => (.error error, table, sets)

/-- Encodes the lookups of all registered names. -/
def encode (font : Font) (kind : TableKind) (table : LookupTable) (sets : DeltaSets) :
    Except CompileError (List (List UInt8)) × LookupTable × DeltaSets :=
  encodeFrom font kind table table.names.toList sets

end LookupTable

namespace Compiler

def ofFont (font : Font) : Compiler := { font, sets := font.deltaSets }

def table (compiler : Compiler) : TableKind → LookupTable
  | .substitution => compiler.substitution
  | .positioning => compiler.positioning

def setTable (compiler : Compiler) (kind : TableKind) (table : LookupTable) : Compiler :=
  match kind with
  | .substitution => { compiler with substitution := table }
  | .positioning => { compiler with positioning := table }

/-- Registers a lookup name. -/
def declare (compiler : Compiler) (kind : TableKind) (name : String) : Except CompileError UInt16 × Compiler :=
  let table := compiler.table kind
  let (outcome, names) := table.names.register kind name
  (outcome.mapError .resolve, compiler.setTable kind { table with names })

/-- Adds a lookup under its name, in place of any that was added before. -/
def add (compiler : Compiler) (lookup : Lookup) : Except CompileError UInt16 × Compiler :=
  match compiler.declare lookup.kind.table lookup.name with
  | (.error error, compiler) => (.error error, compiler)
  | (.ok number, compiler) =>
      (.ok number, compiler.setTable lookup.kind.table ((compiler.table lookup.kind.table).put number lookup))

def find? (compiler : Compiler) (kind : TableKind) (name : String) : Option Lookup := (compiler.table kind).find? name

/-- Changes the lookup that was added under a name. -/
def updateLookup? (compiler : Compiler) (kind : TableKind) (name : String) (change : Lookup → Option (α × Lookup)) :
    Option (α × Compiler) := do
  let table := compiler.table kind
  let number ← table.names.number? name
  let lookup ← table.lookups[number]?
  let (answer, lookup) ← change lookup
  return (answer, compiler.setTable kind (table.put number lookup))

/-- Appends a subtable to a lookup. -/
def push? (compiler : Compiler) (kind : TableKind) (name : String) (subtable : Subtable) :
    Option (Except CompileError Unit × Compiler) :=
  compiler.updateLookup? kind name fun lookup =>
    match lookup.push subtable with
    | .ok lookup => some (.ok (), lookup)
    | .error error => some (.error error, lookup)

/-- Changes a subtable of a lookup. -/
def updateSubtable? (compiler : Compiler) (kind : TableKind) (name : String) (index : Nat)
    (change : Subtable → α × Subtable) : Option (α × Compiler) :=
  compiler.updateLookup? kind name fun lookup => lookup.updateSubtable? index change

/-- Compiles the substitution table, then the positioning table, then the store. What was encoded before a failure is
kept for the next time. -/
def compile (compiler : Compiler) : Except CompileError CompiledTables × Compiler :=
  match compiler.substitution.encode compiler.font .substitution compiler.sets with
  | (.error error, substitution, sets) => (.error error, { compiler with substitution, sets })
  | (.ok substitutionBytes, substitution, sets) =>
      match compiler.positioning.encode compiler.font .positioning sets with
      | (.error error, positioning, sets) => (.error error, { compiler with substitution, positioning, sets })
      | (.ok positioningBytes, positioning, sets) =>
          let compiler := { compiler with substitution, positioning, sets }
          if sets.isEmpty then (.ok ⟨substitutionBytes, positioningBytes, none⟩, compiler)
          else
            (match sets.encode with
              | .ok store => .ok ⟨substitutionBytes, positioningBytes, some store⟩
              | .error error => .error (.write error), compiler)

end Compiler

end Kashida
