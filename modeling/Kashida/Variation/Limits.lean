import Kashida.Error
import Std.Data.TreeMap

/-! Elongation limits of glyphs on the left and right axes. Minimums are for shrinking and maximums for stretching. -/
namespace Kashida

inductive Axis where
  | left
  | right
deriving DecidableEq

namespace LimitField

def axis : LimitField → Axis
  | .minLeft | .maxLeft => .left
  | .minRight | .maxRight => .right

def isMinimum : LimitField → Bool
  | .minLeft | .minRight => true
  | .maxLeft | .maxRight => false

/-- All fields in the order in which limits are written down. -/
def all : List LimitField := [.minLeft, .maxLeft, .minRight, .maxRight]

end LimitField

structure ElongationLimits where
  minLeft : Binary64 := .zero
  maxLeft : Binary64 := .zero
  minRight : Binary64 := .zero
  maxRight : Binary64 := .zero
deriving DecidableEq

def ElongationLimits.get (limits : ElongationLimits) : LimitField → Binary64
  | .minLeft => limits.minLeft
  | .maxLeft => limits.maxLeft
  | .minRight => limits.minRight
  | .maxRight => limits.maxRight

/-- Limits by glyph name, and the bounds of all glyphs if the font declares them. -/
structure LimitTable where
  glyphs : Std.TreeMap String ElongationLimits := ∅
  uniform : Option ElongationLimits := none

namespace LimitTable

def insert (table : LimitTable) (glyph : String) (limits : ElongationLimits) : LimitTable :=
  { table with glyphs := table.glyphs.insert glyph limits }

/-- The limits of a glyph that varies. -/
def get? (table : LimitTable) (glyph : String) : Option ElongationLimits := table.glyphs[glyph]?

/-- The limits that a glyph's values are held to; a glyph without limits cannot move. -/
def getOrZero (table : LimitTable) (glyph : String) : ElongationLimits := (table.get? glyph).getD {}

/-- What a value is divided by when it is normalized. -/
def scaleBound (table : LimitTable) (field : LimitField) (limits : ElongationLimits) : Binary64 :=
  (table.uniform.getD limits).get field

end LimitTable

/-- A value as a fraction of its bound. A negative value is first made positive, so that over a negative bound the
fraction is negative again. -/
def normalize (value bound : Binary64) : Rounded :=
  if value.isZero then .finite .zero
  else if value < .zero then (-value).div bound
  else value.div bound

end Kashida
