import Kashida.Proofs.Tables
import Std.Data.TreeMap

/-! Tables that hold a value for each glyph of a coverage. They start with their values and with the offset of the
coverage, whose order is that of the values. -/
namespace Kashida

theorem keys_ascending (map : Std.TreeMap GlyphId β) : map.keys.Pairwise (· < ·) :=
  Std.TreeMap.ordered_keys.imp fun less => Std.compare_eq_lt.mp less

namespace Coverage

theorem ofList_keys (map : Std.TreeMap GlyphId β) : ofList (map.toList.map Prod.fst) = ⟨map.keys⟩ := by
  rw [Std.TreeMap.map_fst_toList_eq_keys, ofList_of_ascending (keys_ascending map)]

theorem size_keys (map : Std.TreeMap GlyphId β) : (Coverage.mk map.keys).size = 4 + 2 * map.size := by
  rw [size, sizeFor, Std.TreeMap.length_keys]

theorem exists_encode_keys {map : Std.TreeMap GlyphId β} (few : map.size ≤ 65535) :
    ∃ bytes, (Coverage.mk map.keys).encode = .ok bytes := by
  have set : (GlyphSet.mk map.keys (keys_ascending map)).toList.length ≤ 65535 := by rwa [Std.TreeMap.length_keys]
  exact exists_encode_ofSet_iff.mpr set

end Coverage

/-- A table as its bytes describe it: the offset of its coverage, the covered glyphs and a value for each of them. -/
structure CoveredArray (α : Type) where
  coverageAt : UInt16
  glyphs : List GlyphId
  values : List α
deriving DecidableEq

namespace CoveredArray

/-- There must be a value for each covered glyph. -/
def read (readFront : ReadM ParseError (UInt16 × List α)) (scope : Scope) : Except ParseError (CoveredArray α) := do
  let ((coverageAt, values), _) ← scope.readAt 0 readFront
  let (coverage, _) ← scope.readAt coverageAt.toNat Coverage.read
  if values.length = coverage.glyphs.length then return ⟨coverageAt, coverage.glyphs, values⟩
  else throw .badValue

/-- The table reads back, whatever stands behind it. -/
theorem read_eq {readFront : ReadM ParseError (UInt16 × List α)} {front covered : List UInt8} {coverage : Coverage}
    {coverageAt : UInt16} {values : List α} (reads : Reads readFront front (coverageAt, values))
    (placed : front.length = coverageAt.toNat) (encoded : coverage.encode = .ok covered)
    (paired : values.length = coverage.glyphs.length) (origin : Nat) (back : List UInt8) :
    read readFront ⟨origin, front ++ covered ++ back⟩ = .ok ⟨coverageAt, coverage.glyphs, values⟩ := by
  have frontStands : Stands (front ++ covered ++ back) 0 front :=
    ⟨[], covered ++ back, by rw [List.nil_append, List.append_assoc], rfl⟩
  have coverageStands : Stands (front ++ covered ++ back) coverageAt.toNat covered := ⟨front, back, rfl, placed⟩
  simp only [read, bind_eq_ok_iff]
  refine ⟨_, frontStands.readAt ⟨origin, _⟩ reads, _,
    coverageStands.readAt ⟨origin, _⟩ (Coverage.encode_reads encoded).2, ?_⟩
  rw [if_pos paired, pure_eq_ok_iff]

/-- The table holds a map: its coverage lists the glyphs of the map, ascending, and each value holds what the map has
for the glyph at the same place. -/
structure Represents (holds : GlyphId → β → α → Prop) (map : Std.TreeMap GlyphId β) (stored : CoveredArray α) :
    Prop where
  ascending : stored.glyphs.Pairwise (· < ·)
  covered : ∀ glyph, glyph ∈ stored.glyphs ↔ glyph ∈ map
  aligned : List.Forall₂ (fun glyph value => ∃ entry, map[glyph]? = some entry ∧ holds glyph entry value)
    stored.glyphs stored.values

theorem Represents.imp {holds also : GlyphId → β → α → Prop} {map : Std.TreeMap GlyphId β} {stored : CoveredArray α}
    (represents : Represents holds map stored)
    (implies : ∀ glyph entry value, map[glyph]? = some entry → holds glyph entry value → also glyph entry value) :
    Represents also map stored := by
  refine ⟨represents.ascending, represents.covered, represents.aligned.imp ?_⟩
  rintro glyph value ⟨entry, found, held⟩
  exact ⟨entry, found, implies glyph entry value found held⟩

theorem represents_of_toList {holds : GlyphId → β → α → Prop} {map : Std.TreeMap GlyphId β} {values : List α}
    (each : List.Forall₂ (fun entry value => holds entry.1 entry.2 value) map.toList values) (coverageAt : UInt16) :
    Represents holds map ⟨coverageAt, map.keys, values⟩ := by
  refine ⟨keys_ascending map, fun glyph => Std.TreeMap.mem_keys, ?_⟩
  rw [← Std.TreeMap.map_fst_toList_eq_keys, List.forall₂_map_left_iff]
  have listed : ∀ entry ∈ map.toList, map[entry.1]? = some entry.2 :=
    fun entry member => Std.TreeMap.mem_toList_iff_getElem?_eq_some.mp member
  refine ((List.forall₂_and_left map.toList values).mpr ⟨listed, each⟩).imp ?_
  rintro entry value ⟨found, held⟩
  exact ⟨entry.2, found, held⟩

end CoveredArray

end Kashida
