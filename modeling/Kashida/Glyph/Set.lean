import Kashida.Glyph.Basic
import Std.Data.TreeSet

/-! Finite sets of glyphs as strictly ascending lists, so that two sets with the same members are equal. -/
namespace Kashida

/-- A set of glyphs. -/
structure GlyphSet where
  toList : List GlyphId
  ascending : toList.Pairwise (· < ·)
deriving DecidableEq

namespace GlyphSet

def empty : GlyphSet := ⟨[], .nil⟩

/-- The set of the listed glyphs, in any order and with repeats. -/
def ofList (glyphs : List GlyphId) : GlyphSet where
  toList := (Std.TreeSet.ofList glyphs).toList
  ascending := (Std.TreeSet.ordered_toList (t := Std.TreeSet.ofList glyphs)).imp Std.compare_eq_lt.mp

instance : Membership GlyphId GlyphSet := ⟨fun set glyph => glyph ∈ set.toList⟩

theorem mem_ofList {glyph : GlyphId} {glyphs : List GlyphId} : glyph ∈ ofList glyphs ↔ glyph ∈ glyphs := by
  show glyph ∈ (Std.TreeSet.ofList glyphs).toList ↔ _
  rw [Std.TreeSet.mem_toList, Std.TreeSet.mem_ofList, List.contains_iff_mem]

def union (sets : List GlyphSet) : GlyphSet := ofList (sets.flatMap toList)

theorem mem_union {glyph : GlyphId} {sets : List GlyphSet} : glyph ∈ union sets ↔ ∃ set ∈ sets, glyph ∈ set := by
  rw [union, mem_ofList, List.mem_flatMap]
  rfl

@[ext]
theorem ext {one other : GlyphSet} (same : ∀ glyph, glyph ∈ one ↔ glyph ∈ other) : one = other := by
  have distinct (set : GlyphSet) : set.toList.Nodup := set.ascending.imp fun less => UInt16.ne_of_lt less
  have lists : one.toList = other.toList :=
    ((List.perm_ext_iff_of_nodup (distinct one) (distinct other)).mpr same).eq_of_pairwise
      (fun _ _ _ _ less more => absurd (UInt16.lt_trans less more) (UInt16.lt_irrefl _)) one.ascending other.ascending
  cases one
  cases other
  cases lists
  rfl

def isEmpty (set : GlyphSet) : Bool := set.toList.isEmpty

end GlyphSet

end Kashida
