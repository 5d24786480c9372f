import Kashida.Bytes.Scalar
import Kashida.Tables.Anchor
import Kashida.Variation.Limits

/-! Delta sets: how far a coordinate moves at the ends of the elongation axes.

A region is an end of an axis, and a row has one delta for each of its regions. Regions are numbered by position, and
rows are grouped by their regions; equal rows of a group are one row. What has been handed out is never moved, also when
a later step fails half-way. -/
namespace Kashida

/-- The part of one axis between the default and a peak. -/
structure Region where
  axis : Axis
  peak : F2Dot14
deriving DecidableEq

/-- The delta of a row at a region. -/
structure Column where
  region : UInt16
  delta : Int16
deriving DecidableEq

namespace Column

instance : Ord Column := ⟨compareLex (compareOn Column.region) (compareOn Column.delta)⟩

instance : Std.TransOrd Column :=
  inferInstanceAs (Std.TransCmp (compareLex (compareOn Column.region) (compareOn Column.delta)))

/-- Inserts a column before the first that is not less. -/
def insert (column : Column) : List Column → List Column
  | [] => [column]
  | other :: rest =>
      if (compare other column).isLT then other :: insert column rest else column :: other :: rest

/-- Columns by region, then by delta. -/
def sort (columns : List Column) : List Column := columns.foldr insert []

end Column

/-- Rows with the same regions. -/
structure DeltaGroup where
  regions : List UInt16
  rows : Array (List Int16)

/-- A group with one more row. -/
@[noinline] def DeltaGroup.push (row : List Int16) (group : DeltaGroup) : DeltaGroup :=
  { group with rows := group.rows.push row }

/-- How one coordinate changes at each end of the axes. -/
structure EndDeltas where
  atMaxLeft : Int
  atMinLeft : Int
  atMaxRight : Int
  atMinRight : Int
deriving DecidableEq

namespace EndDeltas

/-- The changes from a default to the values at the four ends. -/
def between (default maxLeft minLeft maxRight minRight : Int) : EndDeltas :=
  ⟨maxLeft - default, minLeft - default, maxRight - default, minRight - default⟩

def isZero (deltas : EndDeltas) : Bool := deltas == ⟨0, 0, 0, 0⟩

/-- The change at each end, in the order in which ends get their regions. -/
def ends (deltas : EndDeltas) : List (LimitField × Int) :=
  [(.maxLeft, deltas.atMaxLeft), (.minLeft, deltas.atMinLeft), (.maxRight, deltas.atMaxRight),
    (.minRight, deltas.atMinRight)]

end EndDeltas

/-- All regions and rows handed out so far. -/
structure DeltaSets where
  /-- Peaks are limits divided by their bounds; otherwise limits are peaks already. -/
  normalized : Bool
  uniform : Option ElongationLimits
  regions : List Region := []
  groups : Array DeltaGroup := #[]
  /-- The index of each row by its columns. -/
  indexes : Std.TreeMap (List Column) DeltaSetIndex := ∅

namespace DeltaSets

/-- The most rows that a group can count. -/
def maxRows : Nat := 65535

def size (sets : DeltaSets) : Nat := sets.indexes.size

def isEmpty (sets : DeltaSets) : Bool := sets.indexes.isEmpty

/-- A limit on the wrong side of zero, or beyond the bound of all glyphs. -/
def offends (uniform : Option ElongationLimits) (limits : ElongationLimits) (field : LimitField) : Bool :=
  let value := limits.get field
  let wrongSide := if field.isMinimum then decide (Binary64.zero < value) else decide (value < Binary64.zero)
  match uniform with
  | none => wrongSide
  | some bounds =>
      wrongSide || if field.isMinimum then decide (value < bounds.get field) else decide (bounds.get field < value)

/-- Reports the first limit that offends. -/
def validate (sets : DeltaSets) (glyph : String) (limits : ElongationLimits) : Except BoundsError Unit :=
  match LimitField.all.find? (offends sets.uniform limits) with
  | none => .ok ()
  | some field =>
      .error ⟨glyph, field, limits.get field, (sets.uniform.map (·.get field)).getD .zero⟩

/-- The peak of a limit other than zero. -/
def peak (sets : DeltaSets) (glyph : String) (limits : ElongationLimits) (field : LimitField) :
    Except CompileError F2Dot14 := do
  let extreme := limits.get field
  if sets.normalized then
    F2Dot14.ofRounded (normalize extreme ((sets.uniform.getD limits).get field))
  else if Binary64.one < extreme then throw (.axisBounds ⟨glyph, field, extreme, .one⟩)
  else if extreme < .negOne then throw (.axisBounds ⟨glyph, field, extreme, .negOne⟩)
  else F2Dot14.ofRounded (.finite extreme)

/-- The number of a region, which is registered if it is new. -/
def registerRegion (sets : DeltaSets) (region : Region) : Except WriteError UInt16 × DeltaSets :=
  match sets.regions.idxOf? region with
  | some index => (.ok (.ofNat index), sets)
  | none =>
      match count16 sets.regions.length with
      | .ok index => (.ok index, { sets with regions := sets.regions ++ [region] })
      | .error error => (.error error, sets)

/-- One column for each end whose limit is not zero. Regions registered before a failure stay. -/
def columns (sets : DeltaSets) (glyph : String) (limits : ElongationLimits) :
    List (LimitField × Int) → Except CompileError (List Column) × DeltaSets
  | [] => (.ok [], sets)
  | (field, delta) :: ends =>
      if (limits.get field).isZero then columns sets glyph limits ends
      else
        match sets.peak glyph limits field with
        | .error error => (.error error, sets)
        | .ok peak =>
            match sets.registerRegion ⟨field.axis, peak⟩ with
            | (.error error, sets) => (.error (.write error), sets)
            | (.ok region, sets) =>
                match coordinate16 delta with
                | .error error => (.error (.write error), sets)
                | .ok delta =>
                    match columns sets glyph limits ends with
                    | (.ok columns, sets) => (.ok (⟨region, delta⟩ :: columns), sets)
                    | (.error error, sets) => (.error error, sets)

/-- The group that takes the next row with these regions, opened if all such groups are full. -/
def openGroup (sets : DeltaSets) (regions : List UInt16) : Nat × DeltaSets :=
  match sets.groups.findIdx? fun group => group.regions == regions && group.rows.size < maxRows with
  | some outer => (outer, sets)
  | none => (sets.groups.size, { sets with groups := sets.groups.push ⟨regions, #[]⟩ })

def rowCount (sets : DeltaSets) (outer : Nat) : Nat := (sets.groups[outer]?.map (·.rows.size)).getD 0

/-- Adds a row. A row whose group has a number beyond 16 bits stays without an index. -/
def pushRow (sets : DeltaSets) (columns : List Column) : Except WriteError DeltaSetIndex × DeltaSets :=
  let (outer, sets) := sets.openGroup (columns.map Column.region)
  let inner := sets.rowCount outer
  let sets := { sets with groups := sets.groups.modify outer (DeltaGroup.push (columns.map Column.delta)) }
  let index := do return ⟨← count16 outer, ← count16 inner⟩
  (index, sets)

/-- The delta set of one coordinate of a glyph: an equal one that is there already, or a new one. -/
def allocate (sets : DeltaSets) (glyph : String) (deltas : EndDeltas) (limits : ElongationLimits) :
    Except CompileError DeltaSetIndex × DeltaSets :=
  match sets.validate glyph limits with
  | .error error => (.error (.axisBounds error), sets)
  | .ok () =>
      match sets.columns glyph limits deltas.ends with
      | (.error error, sets) => (.error error, sets)
      | (.ok columns, sets) =>
          let columns := Column.sort columns
          match sets.indexes[columns]? with
          | some index => (.ok index, sets)
          | none =>
              match sets.pushRow columns with
              | (.error error, sets) => (.error (.write error), sets)
              | (.ok index, sets) => (.ok index, { sets with indexes := sets.indexes.insert columns index })

/-- The delta sets of both coordinates of a point. -/
def allocatePoint (sets : DeltaSets) (glyph : String) (x y : EndDeltas) (limits : ElongationLimits) :
    Except CompileError (DeltaSetIndex × DeltaSetIndex) × DeltaSets :=
  match sets.allocate glyph x limits with
  | (.error error, sets) => (.error error, sets)
  | (.ok xIndex, sets) =>
      match sets.allocate glyph y limits with
      | (.error error, sets) => (.error error, sets)
      | (.ok yIndex, sets) => (.ok (xIndex, yIndex), sets)

end DeltaSets

end Kashida
