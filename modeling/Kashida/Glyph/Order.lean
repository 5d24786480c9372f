import Kashida.Error
import Kashida.Glyph.Basic
import Std.Data.TreeMap

/-! The glyph order: a one-to-one naming of glyph numbers. -/
namespace Kashida

/-- Names and numbers, each found from the other. -/
structure GlyphOrder where
  byName : Std.TreeMap String GlyphId := ∅
  byId : Std.TreeMap GlyphId String := ∅

namespace GlyphOrder

def id? (order : GlyphOrder) (name : String) : Option GlyphId := order.byName[name]?

def name? (order : GlyphOrder) (id : GlyphId) : Option String := order.byId[id]?

/-- Names a glyph. Pairs that share the name or the number give way. -/
def insert (order : GlyphOrder) (name : String) (id : GlyphId) : GlyphOrder :=
  let byName := match order.name? id with
    | some old => order.byName.erase old
    | none => order.byName
  let byId := match order.id? name with
    | some old => order.byId.erase old
    | none => order.byId
  ⟨byName.insert name id, byId.insert id name⟩

def ofList (pairs : List (String × GlyphId)) : GlyphOrder :=
  pairs.foldl (fun order (name, id) => order.insert name id) {}

/-- All pairs, by name. -/
def toList (order : GlyphOrder) : List (String × GlyphId) := order.byName.toList

def size (order : GlyphOrder) : Nat := order.byId.size

def contains (order : GlyphOrder) (name : String) : Bool := order.byName.contains name

/-- The number of a name that must be known. -/
def getId (order : GlyphOrder) (name : String) : Except ResolveError GlyphId :=
  match order.id? name with
  | some id => .ok id
  | none => .error (.unknownGlyph name)

/-- The name of a number that must be known. -/
def getName (order : GlyphOrder) (id : GlyphId) : Except ResolveError String :=
  match order.name? id with
  | some name => .ok name
  | none => .error (.unknownGlyphId id)

end GlyphOrder

end Kashida
