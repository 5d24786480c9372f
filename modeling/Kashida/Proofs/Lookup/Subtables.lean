import Kashida.Lookup.Subtable
import Kashida.Proofs.Positioning.CursiveReader

/-! How subtables use the delta sets. Encoding is composed of steps that only resolve and write and of anchors that
vary; so it lets delta sets grow, and leaves them alone where no anchor varies. -/
namespace Kashida

/-- Steps composed of those that leave the delta sets alone and of anchors that vary. -/
inductive Composed (font : Font) : {α : Type} → VariationM α → Prop
  | lift (outcome : Except CompileError α) : Composed font (liftM outcome : VariationM α)
  | varying (glyph : String) (default : Point) (position : Binary64 → Binary64 → Except ResolveError Point) :
      Composed font (Anchor.varying font glyph default position)
  | bind (start : Composed font first) (rest : ∀ value, Composed font (next value)) : Composed font (first >>= next)

namespace Composed

theorem pure (value : α) : Composed font (Pure.pure value : VariationM α) := lift (.ok value)

theorem resolve (outcome : Except ResolveError α) : Composed font (liftM outcome : VariationM α) :=
  lift (outcome.mapError .resolve)

theorem write (outcome : Except WriteError α) : Composed font (liftM outcome : VariationM α) :=
  lift (outcome.mapError .write)

theorem map {step : VariationM α} (convert : α → β) (composed : Composed font step) :
    Composed font (convert <$> step) := by
  rw [map_eq_pure_bind]
  exact composed.bind fun value => pure _

theorem mapM {step : α → VariationM β} {values : List α} (each : ∀ value, Composed font (step value)) :
    Composed font (values.mapM step) := by
  induction values with
  | nil => exact pure []
  | cons value values ih =>
    rw [List.mapM_cons]
    exact (each value).bind fun result => ih.bind fun results => pure _

open VariationM

theorem grows {step : VariationM α} (composed : Composed font step) : Yields step fun _ _ => True := by
  induction composed with
  | lift outcome => exact (Yields.compile outcome).weaken fun _ _ _ => trivial
  | varying glyph default position =>
    exact (Anchor.varying_yields font glyph default position).weaken fun _ _ _ => trivial
  | bind start rest startGrows restGrows =>
    exact startGrows.bind .const fun value => (restGrows value).weaken fun _ _ _ _ => trivial

theorem still {step : VariationM α} (off : font.options.variableAnchors = false) (composed : Composed font step) :
    Still step := by
  induction composed with
  | lift outcome => exact .compile outcome
  | varying glyph default position => exact Anchor.varying_still off glyph default position
  | bind start rest startStill restStill => exact startStill.bind restStill

end Composed

theorem CursiveAttachment.encode_composed (font : Font) (table : CursiveAttachment) :
    Composed font (table.encode font) := by
  have anchors : ∀ side glyph, Composed font (table.anchor font side glyph) := by
    intro side glyph
    refine (Composed.resolve _).bind fun found => ?_
    cases found with
    | none => exact .pure none
    | some point => exact (Composed.resolve _).bind fun default => (Composed.resolve _).bind fun name =>
        (Composed.varying ..).map _
  refine (Composed.mapM fun glyph => ?_).bind fun anchors => .write _
  exact (anchors .entry glyph).bind fun entry => (anchors .exit glyph).bind fun exit => .pure _

theorem AnchorSource.anchor_composed (font : Font) (source : AnchorSource) (category glyph : String) :
    Composed font (source.anchor font category glyph) := by
  unfold anchor
  split
  · exact .write _
  · exact .varying ..
  · exact .write _

theorem MarkAttachment.encode_composed (font : Font) (table : MarkAttachment) :
    Composed font (table.encode font) := by
  have bases : Composed font (table.baseAnchors font) :=
    (Composed.mapM fun base => (Composed.resolve _).bind fun glyph => Composed.mapM fun (name, category) =>
      category.base.anchor_composed font name glyph).bind fun anchors => .pure _
  have marks : Composed font (table.markAnchors font) :=
    Composed.mapM fun (mark, owner) => (Composed.resolve _).bind fun glyph =>
      (owner.category.mark.anchor_composed font owner.name glyph).bind fun anchor => .pure _
  exact bases.bind fun baseAnchors => marks.bind fun markAnchors => .write _

theorem Subtable.encode_composed (font : Font) (names : LookupNames) (owner : String) (subtable : Subtable) :
    Composed font (subtable.encode font names owner) := by
  cases subtable with
  | single table => exact .lift _
  | multiple table => exact .write _
  | ligature table => exact .write _
  | adjustment table => exact .write _
  | cursive table => exact table.encode_composed font
  | mark table => exact table.encode_composed font
  | chaining context => exact .lift _

end Kashida
