import Kashida.Positioning.VariableAnchor
import Kashida.Rule.Positioning
import Kashida.Tables.Coverage

/-! Attachment of marks to bases, or to other marks. Each mark belongs to a class, and each base has an anchor for
every class. -/
namespace Kashida

namespace ByName

/-- Sets a value: a name that is already there keeps its place. -/
def put (name : String) (value : α) : ByName α → ByName α
  | [] => [(name, value)]
  | (other, old) :: rest =>
      if other = name then (name, value) :: rest else (other, old) :: put name value rest

def putAll (values more : ByName α) : ByName α :=
  more.foldl (fun values (name, value) => values.put name value) values

end ByName

/-- How one side of a class finds its anchors. -/
structure AnchorSource where
  function : Option AnchorFunction
  anchors : ByName Point
  adjustments : ByName Point

namespace AnchorSource

def ofRule (font : Font) (rule : SideRule) : Except ResolveError AnchorSource := do
  let function ← match rule.function with
    | some name => some <$> font.function name
    | none => pure none
  return ⟨function, rule.anchors, rule.adjustments⟩

def merge (source : AnchorSource) (adjustments : ByName Point) : AnchorSource :=
  { source with adjustments := source.adjustments.putAll adjustments }

/-- The adjustments that change something. -/
def changes (source : AnchorSource) : ByName Point := source.adjustments.filter fun (_, point) => !point.isZero

/-- The anchor of a glyph: the explicit one with the adjustment added, else what the function makes of the adjustment,
else the adjustment itself. Only a function varies. -/
def anchor (font : Font) (source : AnchorSource) (category glyph : String) : VariationM Anchor :=
  let adjustment := (source.adjustments.lookup glyph).getD .zero
  match source.anchors.lookup glyph, source.function with
  | some point, _ => Anchor.ofPoint (adjustment + point)
  | none, some function =>
      Anchor.varying font glyph (function glyph category adjustment .zero .zero) fun left right =>
        return function glyph category adjustment left right
  | none, none => Anchor.ofPoint adjustment

end AnchorSource

structure MarkClass where
  marks : GlyphSet
  base : AnchorSource
  mark : AnchorSource

namespace MarkClass

def ofRule (font : Font) (rule : MarkClassRule) : Except ResolveError MarkClass := do
  let marks ← font.resolveAll rule.marks
  return ⟨marks, ← AnchorSource.ofRule font rule.base, ← AnchorSource.ofRule font rule.mark⟩

def merge (category : MarkClass) (parameters : MarkClassParameters) : MarkClass :=
  { category with base := category.base.merge parameters.base, mark := category.mark.merge parameters.mark }

def save (category : MarkClass) : MarkClassParameters := ⟨category.base.changes, category.mark.changes⟩

end MarkClass

/-- Classes are numbered in the order of their names. -/
structure MarkAttachment where
  bases : GlyphSet
  classes : Std.TreeMap String MarkClass

namespace MarkAttachment

/-- The class of a mark, with its number. -/
structure Owner where
  number : UInt16
  name : String
  category : MarkClass

/-- The most classes that can be numbered. -/
def maxClasses : Nat := 65536

def ofRule (font : Font) (rule : MarkRule) : Except CompileError MarkAttachment := do
  let bases ← font.resolveAll rule.bases
  let classes ← rule.classes.foldlM (fun (classes : Std.TreeMap String MarkClass) (name, category) => do
    return classes.insert name (← MarkClass.ofRule font category)) ∅
  if classes.size ≤ maxClasses then return ⟨bases, classes⟩ else throw (.write .badValue)

/-- Classes in the order of their numbers. -/
def owners (table : MarkAttachment) : List Owner :=
  table.classes.toList.zipIdx.map fun ((name, category), number) => ⟨.ofNat number, name, category⟩

/-- The owner of each mark; a mark of several classes belongs to the last. -/
def marks (table : MarkAttachment) : Std.TreeMap GlyphId Owner :=
  table.owners.foldl (fun marks owner =>
    owner.category.marks.toList.foldl (fun marks mark => marks.insert mark owner) marks) ∅

/-- Takes over adjustments of the classes that are there and ignores all others. -/
def merge (table : MarkAttachment) (parameters : MarkParameters) : MarkAttachment :=
  { table with classes := parameters.foldl (fun classes (name, block) =>
      classes.modify name fun category => category.merge block) table.classes }

/-- The adjustments that change something, for each class that has any. -/
def save (table : MarkAttachment) : MarkParameters :=
  (table.classes.toList.map fun (name, category) => (name, category.save)).filter fun (_, block) => block ≠ {}

/-- The anchors of every base, one for each class. -/
def baseAnchors (font : Font) (table : MarkAttachment) : VariationM (List Anchor) := do
  let anchors ← table.bases.toList.mapM fun base => do
    let glyph ← font.glyphName base
    table.classes.toList.mapM fun (name, category) => category.base.anchor font name glyph
  return anchors.flatten

/-- The class number and anchor of every mark. -/
def markAnchors (font : Font) (table : MarkAttachment) : VariationM (List (UInt16 × Anchor)) :=
  table.marks.toList.mapM fun (mark, owner) => do
    let glyph ← font.glyphName mark
    return (owner.number, ← owner.category.mark.anchor font owner.name glyph)

/-- Offsets of the anchors of an array count from the start of the array. -/
def markArray (anchors : List (UInt16 × Anchor)) : Except WriteError (List UInt8) := do
  let count ← count16 anchors.length
  let (offsets, _) ← OffsetCounter.advanceAll ⟨2 + 4 * anchors.length⟩ (anchors.map fun (_, anchor) => anchor.size)
  let records := (anchors.zip offsets).flatMap fun ((number, _), offset) => word16 number ++ word16 offset
  return word16 count ++ records ++ anchors.flatMap fun (_, anchor) => anchor.bytes

def baseArray (baseCount : Nat) (anchors : List Anchor) : Except WriteError (List UInt8) := do
  let count ← count16 baseCount
  let (offsets, _) ← OffsetCounter.advanceAll ⟨2 + 2 * anchors.length⟩ (anchors.map Anchor.size)
  return word16 count ++ words16 offsets ++ anchors.flatMap Anchor.bytes

def headerSize : Nat := 12

/-- Header, coverages of marks and bases, then their arrays. -/
def layout (classCount : Nat) (marks bases : List GlyphId) (markAnchors : List (UInt16 × Anchor))
    (baseAnchors : List Anchor) : Except WriteError (List UInt8) := do
  let classCount ← count16 classCount
  let markCoverageAt ← offset16 headerSize
  let markCoverage ← (Coverage.ofList marks).encode
  let baseCoverageAt ← offset16 (headerSize + markCoverage.length)
  let baseCoverage ← (Coverage.ofList bases).encode
  let arraysAt := headerSize + markCoverage.length + baseCoverage.length
  let markArrayAt ← offset16 arraysAt
  let markBytes ← markArray markAnchors
  let baseArrayAt ← offset16 (arraysAt + markBytes.length)
  let baseBytes ← baseArray bases.length baseAnchors
  return words16 [1, markCoverageAt, baseCoverageAt, classCount, markArrayAt, baseArrayAt] ++ markCoverage ++
    baseCoverage ++ markBytes ++ baseBytes

/-- Delta sets are handed out to the bases before the marks. -/
def encode (font : Font) (table : MarkAttachment) : VariationM (List UInt8) := do
  let baseAnchors ← table.baseAnchors font
  let markAnchors ← table.markAnchors font
  layout table.classes.size table.marks.keys table.bases.toList markAnchors baseAnchors

end MarkAttachment

end Kashida
