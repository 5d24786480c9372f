import Kashida.Lookup.Subtable

/-! Lookups: subtables of one kind under a name. The bytes of a subtable are kept until it changes. -/
namespace Kashida

inductive LookupKind where
  | singleSubstitution
  | multipleSubstitution
  | ligatureSubstitution
  | chainingSubstitution
  | singleAdjustment
  | cursiveAttachment
  | markToBase
  | markToMark
  | chainingPositioning
deriving DecidableEq

namespace LookupKind

def all : List LookupKind :=
  [.singleSubstitution, .multipleSubstitution, .ligatureSubstitution, .chainingSubstitution, .singleAdjustment,
    .cursiveAttachment, .markToBase, .markToMark, .chainingPositioning]

def table : LookupKind → TableKind
  | .singleSubstitution | .multipleSubstitution | .ligatureSubstitution | .chainingSubstitution => .substitution
  | .singleAdjustment | .cursiveAttachment | .markToBase | .markToMark | .chainingPositioning => .positioning

/-- The number of the kind in its table. -/
def number : LookupKind → UInt16
  | .singleSubstitution => 1
  | .multipleSubstitution => 2
  | .ligatureSubstitution => 4
  | .chainingSubstitution => 6
  | .singleAdjustment => 1
  | .cursiveAttachment => 3
  | .markToBase => 4
  | .markToMark => 6
  | .chainingPositioning => 8

def accepts : LookupKind → Subtable → Bool
  | .singleSubstitution, .single _ => true
  | .multipleSubstitution, .multiple _ => true
  | .ligatureSubstitution, .ligature _ => true
  | .chainingSubstitution, .chaining _ => true
  | .singleAdjustment, .adjustment _ => true
  | .cursiveAttachment, .cursive _ => true
  | .markToBase, .mark _ => true
  | .markToMark, .mark _ => true
  | .chainingPositioning, .chaining _ => true
  | _, _ => false

end LookupKind

/-- A subtable, and its bytes if it has not changed since they were made. -/
structure LookupSlot where
  subtable : Subtable
  encoded : Option (List UInt8) := none

structure Lookup where
  name : String
  kind : LookupKind
  flags : UInt16 := 0
  markFilteringSet : Option UInt16 := none
  slots : List LookupSlot := []

namespace Lookup

/-- The flag that says that a filtering set follows. -/
def filteringFlag : UInt16 := 0x0010

def filterMarks (lookup : Lookup) (set : UInt16) : Lookup :=
  { lookup with flags := lookup.flags ||| filteringFlag, markFilteringSet := some set }

/-- Appends a subtable of the lookup's kind. -/
def push (lookup : Lookup) (subtable : Subtable) : Except CompileError Lookup :=
  if lookup.kind.accepts subtable then .ok { lookup with slots := lookup.slots ++ [{ subtable }] }
  else .error (.subtableMismatch lookup.name)

/-- Some subtable has no bytes. -/
def isDirty (lookup : Lookup) : Bool := lookup.slots.any fun slot => slot.encoded.isNone

def subtable? (lookup : Lookup) (index : Nat) : Option Subtable := lookup.slots[index]?.map LookupSlot.subtable

/-- Changes a subtable and forgets its bytes. -/
def updateSubtable? (lookup : Lookup) (index : Nat) (change : Subtable → α × Subtable) : Option (α × Lookup) :=
  lookup.slots[index]?.map fun slot =>
    let (answer, subtable) := change slot.subtable
    (answer, { lookup with slots := lookup.slots.set index { subtable } })

/-- Encodes the subtables without bytes from the slot numbered `index` on. The first failure ends it, and names the
lookup and the slot; bytes made before it are kept. -/
def encodeSlots (font : Font) (names : LookupNames) (owner : String) (index : Nat) (slots : List LookupSlot)
    (sets : DeltaSets) : Except CompileError Unit × List LookupSlot × DeltaSets :=
  match slots with
  | [] => (.ok (), [], sets)
  | ⟨subtable, some bytes⟩ :: rest =>
      let (outcome, rest, sets) := encodeSlots font names owner (index + 1) rest sets
      (outcome, ⟨subtable, some bytes⟩ :: rest, sets)
  | ⟨subtable, none⟩ :: rest =>
      match (subtable.encode font names owner).run sets with
      | (.error error, sets) => (.error (.inLookup owner index error), ⟨subtable, none⟩ :: rest, sets)
      | (.ok bytes, sets) =>
          let (outcome, rest, sets) := encodeSlots font names owner (index + 1) rest sets
          (outcome, ⟨subtable, some bytes⟩ :: rest, sets)

/-- Header, offsets and filtering set, then the subtables. -/
def assemble (lookup : Lookup) (subtables : List (List UInt8)) : Except WriteError (List UInt8) := do
  let filtering := match lookup.markFilteringSet with
    | some set => word16 set
    | none => []
  let count ← count16 subtables.length
  let (offsets, _) ← OffsetCounter.advanceAll ⟨6 + 2 * subtables.length + filtering.length⟩
    (subtables.map List.length)
  return word16 lookup.kind.number ++ word16 lookup.flags ++ word16 count ++ words16 offsets ++ filtering ++
    subtables.flatten

/-- Encodes what has changed and puts the lookup together. -/
def encode (font : Font) (names : LookupNames) (lookup : Lookup) (sets : DeltaSets) :
    Except CompileError (List UInt8) × Lookup × DeltaSets :=
  match encodeSlots font names lookup.name 0 lookup.slots sets with
  | (.error error, slots, sets) => (.error error, { lookup with slots }, sets)
  | (.ok (), slots, sets) =>
      ((lookup.assemble (slots.map fun slot => slot.encoded.getD [])).mapError .write, { lookup with slots }, sets)

end Lookup

end Kashida
