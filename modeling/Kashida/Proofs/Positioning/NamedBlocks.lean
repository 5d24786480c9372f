import Kashida.Positioning.Cursive
import Kashida.Proofs.Glyph.Order
import Kashida.Proofs.Positioning.AdjustmentReader

/-! Blocks that adjust glyphs by name. A table takes over a block entry by entry up to the first unknown name. What it
saves is a block as well, which names the glyphs that it adjusts by something. -/
namespace Kashida

namespace Font

theorem glyphId_eq_ok_iff {font : Font} : font.glyphId name = .ok glyph ↔ font.glyphs.id? name = some glyph := by
  unfold glyphId GlyphOrder.getId
  cases font.glyphs.id? name <;> simp

theorem glyphId_eq_error_iff {font : Font} :
    font.glyphId name = .error error ↔ font.glyphs.id? name = none ∧ error = .unknownGlyph name := by
  unfold glyphId GlyphOrder.getId
  cases font.glyphs.id? name <;> simp [eq_comm]

theorem glyphName_eq_ok_iff {font : Font} : font.glyphName glyph = .ok name ↔ font.glyphs.name? glyph = some name := by
  unfold glyphName GlyphOrder.getName
  cases font.glyphs.name? glyph <;> simp

end Font

namespace ByName

/-- The entries before the first unknown name, by glyph. -/
def known (font : Font) (block : ByName α) : List (GlyphId × α) :=
  (block.takeWhile fun entry => (font.glyphId entry.1).isOk).filterMap fun entry =>
    (font.glyphId entry.1).toOption.map fun glyph => (glyph, entry.2)

/-- The last value for a glyph before the first unknown name. -/
def latest? (font : Font) (block : ByName α) (glyph : GlyphId) : Option α := (block.known font).reverse.lookup glyph

/-- What comes of taking over a block: the error of its first unknown name, if it has one. -/
def outcome (font : Font) : ByName α → Except ResolveError Unit
  | [] => .ok ()
  | (name, _) :: block => do
      let _ ← font.glyphId name
      outcome font block

section

variable {font : Font} {name : String} {value : α} {block : ByName α}

theorem known_cons_of_ok (found : font.glyphId name = .ok glyph) :
    known font ((name, value) :: block) = (glyph, value) :: known font block := by
  simp [known, found, Except.isOk, Except.toBool, Except.toOption]

theorem known_cons_of_error (unknown : font.glyphId name = .error error) :
    known font ((name, value) :: block) = [] := by
  simp [known, unknown, Except.isOk, Except.toBool]

theorem outcome_cons_of_ok (found : font.glyphId name = .ok glyph) :
    outcome font ((name, value) :: block) = outcome font block := by
  rw [outcome, found]
  rfl

theorem outcome_cons_of_error (unknown : font.glyphId name = .error error) :
    outcome font ((name, value) :: block) = .error error := by
  rw [outcome, unknown]
  rfl

end

/-- Names that were found for glyphs lead back to them. -/
theorem known_of_named {font : Font} (oneToOne : font.glyphs.OneToOne) {entries : List (GlyphId × α)}
    {block : ByName α}
    (named : entries.mapM (fun entry => do return (← font.glyphName entry.1, entry.2)) = .ok block) :
    block.known font = entries ∧ block.outcome font = .ok () := by
  rw [mapM_eq_ok_iff] at named
  induction named with
  | nil => exact ⟨rfl, rfl⟩
  | @cons entry _ entries block here _ ih =>
    simp only [bind_eq_ok_iff, pure_eq_ok_iff] at here
    obtain ⟨name, isName, rfl⟩ := here
    have found : font.glyphId name = .ok entry.1 := by
      apply Font.glyphId_eq_ok_iff.mpr
      apply (oneToOne name entry.1).mpr
      exact Font.glyphName_eq_ok_iff.mp isName
    rw [known_cons_of_ok found, outcome_cons_of_ok found, ih.1]
    exact ⟨rfl, ih.2⟩

end ByName

/-- Among the entries of a map that are kept, each key has what the map has for it. -/
theorem lookup_filter_toList (map : Std.TreeMap GlyphId α) (keep : α → Bool) (glyph : GlyphId) :
    ((map.toList.filter fun entry => keep entry.2).reverse.lookup glyph) = map[glyph]?.filter keep := by
  apply Option.ext
  intro value
  have listed : (glyph, value) ∈ (map.toList.filter fun entry => keep entry.2).reverse ↔
      map[glyph]?.filter keep = some value := by
    rw [List.mem_reverse, List.mem_filter, Std.TreeMap.mem_toList_iff_getElem?_eq_some, Option.filter_eq_some_iff]
  rw [← listed, List.lookup_eq_some_iff]
  constructor
  · rintro ⟨before, after, whole, _⟩
    rw [whole]
    exact List.mem_append_right before List.mem_cons_self
  · intro member
    obtain ⟨before, after, whole⟩ := List.mem_iff_append.mp member
    refine ⟨before, after, whole, fun other early => ?_⟩
    -- The map lists no key twice, so none of the others has this one.
    have distinct : ((map.toList.filter fun entry => keep entry.2).reverse).Pairwise fun a b => a.1 ≠ b.1 := by
      apply List.pairwise_reverse.mpr
      apply List.Pairwise.filter
      refine Std.TreeMap.distinct_keys_toList.imp fun different same => different ?_
      rw [same]
      exact Std.ReflOrd.compare_self
    rw [whole, List.pairwise_append] at distinct
    rw [bne_iff_ne]
    exact (distinct.2.2 other early _ List.mem_cons_self).symm

namespace SingleAdjustment

theorem merge_eq (font : Font) (table : SingleAdjustment) (block : ByName ValueRecord) :
    table.merge font block = (block.outcome font, ⟨table.records,
      (block.known font).foldl (fun map entry => map.insert entry.1 entry.2) table.adjustments⟩) := by
  fun_induction merge font table block with
  | case1 table => rfl
  | case2 table name record block glyph found ih =>
    rw [ih, ByName.outcome_cons_of_ok found, ByName.known_cons_of_ok found]
    rfl
  | case3 table name record block error unknown =>
    rw [ByName.outcome_cons_of_error unknown, ByName.known_cons_of_error unknown]
    rfl

/-- A block leaves the records and puts its latest adjustment of each glyph over what was there, up to the first unknown
name. -/
theorem merge_takes (font : Font) (table : SingleAdjustment) (block : ByName ValueRecord) :
    (table.merge font block).2.records = table.records ∧ ∀ glyph : GlyphId,
      (table.merge font block).2.adjustments[glyph]? =
        (block.latest? font glyph).or table.adjustments[glyph]? := by
  rw [merge_eq]
  exact ⟨rfl, fun glyph => getElem?_foldl_insert _ _ glyph⟩

end SingleAdjustment

namespace CursiveParameters

/-- What comes of taking over a block of entries and exits in turn. -/
def outcome (font : Font) (parameters : CursiveParameters) : Except ResolveError Unit := do
  parameters.entry.outcome font
  parameters.exit.outcome font

/-- The adjustments of one side before the first unknown name; exits come after all entries. -/
def known (font : Font) (parameters : CursiveParameters) : CursiveSide → List (GlyphId × Point)
  | .entry => parameters.entry.known font
  | .exit => if (parameters.entry.outcome font).isOk then parameters.exit.known font else []

def latest? (font : Font) (parameters : CursiveParameters) (side : CursiveSide) (glyph : GlyphId) : Option Point :=
  (parameters.known font side).reverse.lookup glyph

end CursiveParameters

namespace CursiveAttachment

/-- Adjusts one side of several glyphs. -/
def setAll (table : CursiveAttachment) (side : CursiveSide) (entries : List (GlyphId × Point)) : CursiveAttachment :=
  entries.foldl (fun table entry => table.setAdjustment side entry.1 entry.2) table

theorem mergeSide_eq (font : Font) (table : CursiveAttachment) (side : CursiveSide) (block : ByName Point) :
    table.mergeSide font side block = (block.outcome font, table.setAll side (block.known font)) := by
  fun_induction mergeSide font table side block with
  | case1 table => rfl
  | case2 table name point block glyph found ih =>
    rw [ih, ByName.outcome_cons_of_ok found, ByName.known_cons_of_ok found]
    rfl
  | case3 table name point block error unknown =>
    rw [ByName.outcome_cons_of_error unknown, ByName.known_cons_of_error unknown]
    rfl

theorem merge_eq (font : Font) (table : CursiveAttachment) (parameters : CursiveParameters) :
    table.merge font parameters = (parameters.outcome font,
      (table.setAll .entry (parameters.known font .entry)).setAll .exit (parameters.known font .exit)) := by
  rw [merge, mergeSide_eq, CursiveParameters.outcome, CursiveParameters.known, CursiveParameters.known]
  cases parameters.entry.outcome font with
  | error error => rfl
  | ok => exact mergeSide_eq font _ .exit parameters.exit

/-- Adjustments of one side leave the anchors and the other side alone. -/
theorem setAll_eq (table : CursiveAttachment) (side : CursiveSide) (entries : List (GlyphId × Point)) :
    (table.setAll side entries).name = table.name ∧ (table.setAll side entries).anchors = table.anchors ∧
    ∀ other, (table.setAll side entries).adjustments other = if other = side
      then entries.foldl (fun map entry => map.insert entry.1 entry.2) (table.adjustments other)
      else table.adjustments other := by
  induction entries generalizing table with
  | nil => exact ⟨rfl, rfl, fun other => (ite_self _).symm⟩
  | cons entry entries ih =>
    obtain ⟨sameName, sameAnchors, changed⟩ := ih (table.setAdjustment side entry.1 entry.2)
    have step : (table.setAll side (entry :: entries)) =
        (table.setAdjustment side entry.1 entry.2).setAll side entries := rfl
    rw [step, sameName, sameAnchors]
    cases side with
    | entry => exact ⟨rfl, rfl, fun other => by rw [changed]; cases other <;> rfl⟩
    | exit => exact ⟨rfl, rfl, fun other => by rw [changed]; cases other <;> rfl⟩

/-- A block leaves the anchors and puts its latest adjustment of each glyph over what was there, up to the first unknown
name. -/
theorem merge_takes (font : Font) (table : CursiveAttachment) (parameters : CursiveParameters) :
    (table.merge font parameters).2.name = table.name ∧ (table.merge font parameters).2.anchors = table.anchors ∧
    ∀ (side : CursiveSide) (glyph : GlyphId), ((table.merge font parameters).2.adjustments side)[glyph]? =
      (parameters.latest? font side glyph).or (table.adjustments side)[glyph]? := by
  obtain ⟨entryName, entryAnchors, entryChanged⟩ := table.setAll_eq .entry (parameters.known font .entry)
  obtain ⟨exitName, exitAnchors, exitChanged⟩ :=
    (table.setAll .entry (parameters.known font .entry)).setAll_eq .exit (parameters.known font .exit)
  rw [merge_eq]
  refine ⟨exitName.trans entryName, exitAnchors.trans entryAnchors, fun side glyph => ?_⟩
  rw [exitChanged, entryChanged]
  cases side with
  | entry => exact getElem?_foldl_insert _ _ glyph
  | exit => exact getElem?_foldl_insert _ _ glyph

end CursiveAttachment

end Kashida
