import Kashida.Number.Decimal

/-! Causes of failure and their wording. -/
namespace Kashida

/-- Data ends before a value is complete. -/
inductive EndOfData where
  | endOfData
deriving DecidableEq

/-- Why a table cannot be read. -/
inductive ParseError where
  | endOfData
  | badValue
  | badVersion
deriving DecidableEq

/-- Why a value cannot be written. -/
inductive WriteError where
  | badValue
  | offsetOverflow
  | unsorted
  | sizeMismatch
deriving DecidableEq

/-- Why a name in a rule stands for nothing. -/
inductive ResolveError where
  | unknownGlyph (name : String)
  | unknownGlyphId (id : UInt16)
  | unknownLookup (owner name : String)
  | unknownAnchorFunction (name : String)
  | badPattern (pattern : String)
  | emptyClass (name : String)
  | cyclicClass (name : String)
  | missingShape (glyph : String)
deriving DecidableEq

/-- One of the four ends of the two elongation axes. -/
inductive LimitField where
  | minLeft
  | maxLeft
  | minRight
  | maxRight
deriving DecidableEq

/-- An elongation outside the range of its glyph. -/
structure BoundsError where
  glyph : String
  field : LimitField
  value : Binary64
  bound : Binary64
deriving DecidableEq

/-- Why rules cannot be compiled. -/
inductive CompileError where
  | resolve (error : ResolveError)
  | axisBounds (error : BoundsError)
  | write (error : WriteError)
  | subtableMismatch (lookup : String)
  | inLookup (lookup : String) (subtable : Nat) (error : CompileError)
deriving DecidableEq

/-- Steps that only resolve, check bounds or write are steps of a compilation. -/
instance : MonadLift (Except ResolveError) (Except CompileError) := ⟨Except.mapError .resolve⟩

instance : MonadLift (Except BoundsError) (Except CompileError) := ⟨Except.mapError .axisBounds⟩

instance : MonadLift (Except WriteError) (Except CompileError) := ⟨Except.mapError .write⟩

def ParseError.message : ParseError → String
  | .endOfData => "end of data reached unexpectedly"
  | .badValue => "invalid value"
  | .badVersion => "unexpected data version"

def WriteError.message : WriteError → String
  | .badValue => "write: bad value"
  | .offsetOverflow => "offset does not fit in 16 bits"
  | .unsorted => "coverage glyphs are not strictly ascending"
  | .sizeMismatch => "data written to placeholder did not match expected size"

def ResolveError.message : ResolveError → String
  | .unknownGlyph name => "glyph name <" ++ name ++ "> not found"
  | .unknownGlyphId id => "glyph id " ++ toString id.toNat ++ " has no name"
  | .unknownLookup owner name => "lookup '" ++ name ++ "' referenced from '" ++ owner ++ "' is not defined"
  | .unknownAnchorFunction name => "anchor function '" ++ name ++ "' is not registered"
  | .badPattern pattern => "class pattern '" ++ pattern ++ "' is invalid"
  | .emptyClass name => "class '" ++ name ++ "' matches no glyphs"
  | .cyclicClass name => "class '" ++ name ++ "' refers to itself"
  | .missingShape glyph => "no shape available for glyph '" ++ glyph ++ "'"

def LimitField.text : LimitField → String
  | .minLeft => "MinLeftTatweel"
  | .maxLeft => "MaxLeftTatweel"
  | .minRight => "MinRightTatweel"
  | .maxRight => "MaxRightTatweel"

def BoundsError.message (error : BoundsError) : String :=
  error.field.text ++ " error for glyph " ++ error.glyph ++ ": " ++ error.value.toText ++ " exceeds bound " ++
    error.bound.toText

def CompileError.message : CompileError → String
  | .resolve error => "rule resolution: " ++ error.message
  | .axisBounds error => "axis bounds: " ++ error.message
  | .write error => "encoding: " ++ error.message
  | .subtableMismatch lookup => "subtable kind does not match the type of lookup '" ++ lookup ++ "'"
  | .inLookup lookup subtable error =>
      "lookup '" ++ lookup ++ "' subtable " ++ toString subtable ++ ": " ++ error.message

end Kashida
