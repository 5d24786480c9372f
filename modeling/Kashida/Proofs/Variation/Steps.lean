import Kashida.Positioning.VariableAnchor
import Kashida.Proofs.Variation.Growth

/-! Steps that hand out delta sets. A step is described by what holds of its result in the delta sets that it leaves;
as these only grow, a description that survives growth holds for good. -/
namespace Kashida

namespace VariationM

theorem run_bind (first : VariationM α) (next : α → VariationM β) (sets : DeltaSets) :
    (first >>= next).run sets = match first.run sets with
      | (.ok value, sets) => (next value).run sets
      | (.error error, sets) => (.error error, sets) := by
  simp only [ExceptT.run, bind, ExceptT.bind, ExceptT.mk, StateT.bind, ExceptT.bindCont]
  cases first sets with
  | mk outcome sets => cases outcome <;> rfl

theorem run_bind_eq_ok_iff {first : VariationM α} {next : α → VariationM β} {before after : DeltaSets} :
    (first >>= next).run before = (.ok result, after) ↔ ∃ value middle, first.run before = (.ok value, middle) ∧
      (next value).run middle = (.ok result, after) := by
  rw [run_bind]
  match first.run before with
  | (.ok value, middle) =>
    constructor
    · intro run
      exact ⟨value, middle, rfl, run⟩
    · rintro ⟨_, _, same, run⟩
      cases same
      exact run
  | (.error error, middle) =>
    constructor
    · intro run
      cases run
    · rintro ⟨_, _, same, _⟩
      cases same

theorem run_pure_eq_ok_iff {value : α} {before after : DeltaSets} :
    (pure value : VariationM α).run before = (.ok result, after) ↔ value = result ∧ before = after := by
  show (Except.ok value, before) = (.ok result, after) ↔ _
  rw [Prod.mk.injEq, Except.ok.injEq]

theorem run_map_eq_ok_iff {step : VariationM α} {convert : α → β} {before after : DeltaSets} :
    (convert <$> step).run before = (.ok result, after) ↔ ∃ value, step.run before = (.ok value, after) ∧
      convert value = result := by
  rw [map_eq_pure_bind, run_bind_eq_ok_iff]
  simp only [run_pure_eq_ok_iff]
  constructor
  · rintro ⟨value, _, run, same, rfl⟩
    exact ⟨value, run, same⟩
  · rintro ⟨value, run, same⟩
    exact ⟨value, after, run, same, rfl⟩

theorem run_resolve_eq_ok_iff {outcome : Except ResolveError α} {before after : DeltaSets} :
    (liftM outcome : VariationM α).run before = (.ok result, after) ↔ outcome = .ok result ∧ before = after := by
  show (outcome.mapError CompileError.resolve, before) = (.ok result, after) ↔ _
  rw [Prod.mk.injEq, mapError_eq_ok_iff]

theorem resolved_bind {value : α} {next : α → VariationM β} :
    ((liftM (Except.ok value : Except ResolveError α) : VariationM α) >>= next) = next value := rfl

theorem run_write_eq_ok_iff {outcome : Except WriteError α} {before after : DeltaSets} :
    (liftM outcome : VariationM α).run before = (.ok result, after) ↔ outcome = .ok result ∧ before = after := by
  show (outcome.mapError CompileError.write, before) = (.ok result, after) ↔ _
  rw [Prod.mk.injEq, mapError_eq_ok_iff]

theorem run_mapM {step : α → VariationM β} {values : List α} {before after : DeltaSets}
    (run : (values.mapM step).run before = (.ok results, after)) :
    Threaded (fun value before result after => (step value).run before = (.ok result, after)) before values results
      after := by
  induction values generalizing before results with
  | nil =>
    obtain ⟨rfl, rfl⟩ := run_pure_eq_ok_iff.mp run
    exact .nil
  | cons value values ih =>
    rw [List.mapM_cons] at run
    obtain ⟨result, middle, here, run⟩ := run_bind_eq_ok_iff.mp run
    obtain ⟨rest, last, there, run⟩ := run_bind_eq_ok_iff.mp run
    obtain ⟨rfl, rfl⟩ := run_pure_eq_ok_iff.mp run
    exact .cons here (ih there)

/-- From valid delta sets a step leads to valid ones that extend them, also when it fails, and what it gives has the
property in those. -/
def Yields (step : VariationM α) (property : DeltaSets → α → Prop) : Prop :=
  ∀ sets, sets.Valid → (step.run sets).2.Valid ∧ sets.Extends (step.run sets).2 ∧
    ∀ value, (step.run sets).1 = .ok value → property (step.run sets).2 value

/-- A property that growth does not end. -/
def Lasting (property : DeltaSets → α → Prop) : Prop :=
  ∀ before after value, before.Extends after → property before value → property after value

theorem Lasting.const {property : α → Prop} : Lasting fun _ value => property value :=
  fun _ _ _ _ holds => holds

theorem Lasting.forall₂ {property : α → DeltaSets → β → Prop} (lasting : ∀ value, Lasting (property value))
    (values : List α) : Lasting fun sets results =>
      List.Forall₂ (fun value result => property value sets result) values results := by
  intro before after results grown each
  exact each.imp fun value result here => lasting value _ _ _ grown here

namespace Yields

theorem weaken {step : VariationM α} {property weaker : DeltaSets → α → Prop} (yields : Yields step property)
    (implies : ∀ sets value, property sets value → weaker sets value) : Yields step weaker := by
  intro sets valid
  obtain ⟨validNext, grown, holds⟩ := yields sets valid
  exact ⟨validNext, grown, fun value here => implies _ _ (holds value here)⟩

theorem pure {property : DeltaSets → α → Prop} (holds : ∀ sets, property sets value) :
    Yields (Pure.pure value) property := by
  intro sets valid
  refine ⟨valid, .refl _, ?_⟩
  intro result same
  cases same
  exact holds sets

theorem of_run {step : VariationM α} (outcome : Except CompileError α) (run : ∀ sets, step.run sets = (outcome, sets)) :
    Yields step fun _ value => outcome = .ok value := by
  intro sets valid
  rw [run sets]
  exact ⟨valid, .refl _, fun value same => same⟩

theorem compile (outcome : Except CompileError α) :
    Yields (liftM outcome : VariationM α) fun _ value => outcome = .ok value :=
  of_run _ fun _ => rfl

theorem resolve (outcome : Except ResolveError α) :
    Yields (liftM outcome : VariationM α) fun _ value => outcome = .ok value :=
  (of_run (outcome.mapError .resolve) fun _ => rfl).weaken fun _ _ => mapError_eq_ok_iff.mp

theorem write (outcome : Except WriteError α) :
    Yields (liftM outcome : VariationM α) fun _ value => outcome = .ok value :=
  (of_run (outcome.mapError .write) fun _ => rfl).weaken fun _ _ => mapError_eq_ok_iff.mp

/-- What the first step gives keeps its property while the second runs. -/
theorem bind {first : VariationM α} {next : α → VariationM β} {property : DeltaSets → α → Prop}
    {final : DeltaSets → β → Prop} (start : Yields first property) (lasting : Lasting property)
    (rest : ∀ value, Yields (next value) fun sets result => property sets value → final sets result) :
    Yields (first >>= next) final := by
  intro sets valid
  obtain ⟨validNext, grown, holds⟩ := start sets valid
  rw [run_bind]
  generalize first.run sets = outcome at validNext grown holds
  match outcome with
  | (.error error, middle) => exact ⟨validNext, grown, fun value same => by cases same⟩
  | (.ok value, middle) =>
    obtain ⟨validFinal, grownFurther, gives⟩ := rest value middle validNext
    refine ⟨validFinal, grown.trans grownFurther, ?_⟩
    intro result same
    exact gives result same (lasting _ _ _ grownFurther (holds value rfl))

theorem map {step : VariationM α} {convert : α → β} {property : DeltaSets → α → Prop}
    {final : DeltaSets → β → Prop} (yields : Yields step property)
    (converts : ∀ sets value, property sets value → final sets (convert value)) :
    Yields (convert <$> step) final := by
  intro sets valid
  obtain ⟨validNext, grown, holds⟩ := yields sets valid
  have run : (convert <$> step).run sets = ((step.run sets).1.map convert, (step.run sets).2) := by
    rw [map_eq_pure_bind, run_bind]
    match step.run sets with
    | (.ok value, next) => rfl
    | (.error error, next) => rfl
  rw [run]
  refine ⟨validNext, grown, ?_⟩
  intro result same
  cases outcome : (step.run sets).1 with
  | error error =>
    rw [outcome] at same
    cases same
  | ok value =>
    rw [outcome] at same
    cases same
    exact converts _ _ (holds value outcome)

theorem mapM {step : α → VariationM β} {property : α → DeltaSets → β → Prop} {values : List α}
    (lasting : ∀ value, Lasting (property value)) (each : ∀ value ∈ values, Yields (step value) (property value)) :
    Yields (values.mapM step) fun sets results =>
      List.Forall₂ (fun value result => property value sets result) values results := by
  induction values with
  | nil => exact pure fun _ => .nil
  | cons value values ih =>
    have rest := ih fun other member => each other (List.mem_cons_of_mem _ member)
    rw [List.mapM_cons]
    refine (each value List.mem_cons_self).bind (lasting value) fun result => ?_
    exact rest.bind (.forall₂ lasting values) fun results => pure fun sets found here => .cons here found

end Yields

/-- A step that neither looks at the delta sets nor changes them. -/
def Still (step : VariationM α) : Prop := ∃ outcome, ∀ sets, step.run sets = (outcome, sets)

namespace Still

theorem compile (outcome : Except CompileError α) : Still (liftM outcome) := ⟨outcome, fun _ => rfl⟩

theorem write (outcome : Except WriteError α) : Still (liftM outcome) := ⟨outcome.mapError .write, fun _ => rfl⟩

theorem bind {first : VariationM α} {next : α → VariationM β} (start : Still first)
    (rest : ∀ value, Still (next value)) : Still (first >>= next) := by
  obtain ⟨outcome, run⟩ := start
  cases outcome with
  | error error => exact ⟨.error error, fun sets => by rw [run_bind, run]⟩
  | ok value =>
    obtain ⟨final, runNext⟩ := rest value
    exact ⟨final, fun sets => by rw [run_bind, run]; exact runNext sets⟩

end Still

end VariationM

namespace ElongationLimits

/-- The left and right elongation at an end of an axis, where the other axis is at rest. -/
def reach (limits : ElongationLimits) (field : LimitField) : Binary64 × Binary64 :=
  match field.axis with
  | .left => (limits.get field, .zero)
  | .right => (.zero, limits.get field)

/-- The ends of the axes that are not at rest. -/
def reached (limits : ElongationLimits) : List LimitField :=
  [LimitField.maxLeft, .minLeft, .maxRight, .minRight].filter fun field => !(limits.get field).isZero

end ElongationLimits

/-- How far one coordinate moves from its default to the ends of the axes. -/
def EndDeltas.measured (default : Int) (ends : LimitField → Int) : EndDeltas :=
  .between default (ends .maxLeft) (ends .minLeft) (ends .maxRight) (ends .minRight)

theorem EndDeltas.moving_measured (default : Int) (ends : LimitField → Int) (limits : ElongationLimits) :
    (measured default ends).moving limits = limits.reached.map fun field => (field, ends field - default) := by
  have all : (measured default ends).ends =
      [LimitField.maxLeft, .minLeft, .maxRight, .minRight].map fun field => (field, ends field - default) := rfl
  rw [moving, all, List.filter_map]
  rfl

theorem DeltaSets.pair_yields (glyph : String) (x y : EndDeltas) (limits : ElongationLimits) :
    VariationM.Yields (pair glyph x y limits) fun sets indexes =>
      sets.Holds glyph limits x indexes.1 ∧ sets.Holds glyph limits y indexes.2 := by
  intro sets valid
  have run : (pair glyph x y limits).run sets = sets.allocatePoint glyph x y limits := rfl
  rw [run]
  unfold allocatePoint
  split
  · rename_i allocating
    obtain ⟨validNext, grown, _⟩ := allocate_grows valid allocating
    exact ⟨validNext, grown, fun value same => by cases same⟩
  · rename_i xIndex middle allocating
    obtain ⟨validNext, grown, xHeld⟩ := allocate_grows valid allocating
    split
    · rename_i allocatingAgain
      obtain ⟨validFinal, grownFurther, _⟩ := allocate_grows validNext allocatingAgain
      exact ⟨validFinal, grown.trans grownFurther, fun value same => by cases same⟩
    · rename_i yIndex final allocatingAgain
      obtain ⟨validFinal, grownFurther, yHeld⟩ := allocate_grows validNext allocatingAgain
      refine ⟨validFinal, grown.trans grownFurther, ?_⟩
      intro indexes same
      cases same
      exact ⟨(xHeld xIndex rfl).mono grownFurther, yHeld yIndex rfl⟩

namespace Anchor

/-- What an anchor says of its glyph: where it is at rest, and how far it is from there at each end of the axes if the
glyph has limits. -/
inductive Realizes (font : Font) (sets : DeltaSets) (glyph : String)
    (position : Binary64 → Binary64 → Except ResolveError Point) : Anchor → Prop
  | fixed (still : font.varyingLimits? glyph = none) : Realizes font sets glyph position (.fixed x y)
  | variable (ends : LimitField → Point) (varies : font.varyingLimits? glyph = some limits)
      (reached : ∀ field, position (limits.reach field).1 (limits.reach field).2 = .ok (ends field))
      (xHeld : sets.Holds glyph limits (.measured x.toInt fun field => (ends field).x) xVariation)
      (yHeld : sets.Holds glyph limits (.measured y.toInt fun field => (ends field).y) yVariation) :
      Realizes font sets glyph position (.variable x y xVariation yVariation)

theorem Realizes.mono {before after : DeltaSets} (realized : Realizes font before glyph position anchor)
    (grown : before.Extends after) : Realizes font after glyph position anchor := by
  cases realized with
  | fixed still => exact .fixed still
  | «variable» ends varies reached xHeld yHeld =>
    exact .variable ends varies reached (xHeld.mono grown) (yHeld.mono grown)

open VariationM in
theorem varying_yields (font : Font) (glyph : String) (default : Point)
    (position : Binary64 → Binary64 → Except ResolveError Point) :
    Yields (varying font glyph default position) fun sets anchor =>
      anchor.point = default ∧ anchor.Realizes font sets glyph position := by
  unfold varying
  cases varies : font.varyingLimits? glyph with
  | none =>
    refine (Yields.write (ofPoint default)).weaken ?_
    intro sets anchor made
    simp only [ofPoint, bind_eq_ok_iff, pure_eq_ok_iff] at made
    obtain ⟨x, xFits, y, yFits, rfl⟩ := made
    refine ⟨?_, .fixed varies⟩
    rw [point, (coordinate16_eq_ok_iff.mp xFits).2, (coordinate16_eq_ok_iff.mp yFits).2]
  | some limits =>
    refine (Yields.resolve _).bind .const fun maxLeft => ?_
    refine (Yields.resolve _).bind .const fun minLeft => ?_
    refine (Yields.resolve _).bind .const fun maxRight => ?_
    refine (Yields.resolve _).bind .const fun minRight => ?_
    refine (DeltaSets.pair_yields _ _ _ _).bind ?_ fun (xVariation, yVariation) => ?_
    · intro before after indexes grown held
      exact ⟨held.1.mono grown, held.2.mono grown⟩
    refine (Yields.write _).bind .const fun x => ?_
    refine (Yields.write _).bind .const fun y => ?_
    refine Yields.pure fun sets yFits xFits held atMinRight atMaxRight atMinLeft atMaxLeft => ?_
    have xSame := (coordinate16_eq_ok_iff.mp xFits).2
    have ySame := (coordinate16_eq_ok_iff.mp yFits).2
    refine ⟨by rw [point, xSame, ySame], ?_⟩
    -- The four places come one by one; what they say is the same for each end.
    let ends : LimitField → Point
      | .maxLeft => maxLeft
      | .minLeft => minLeft
      | .maxRight => maxRight
      | .minRight => minRight
    rw [← xSame, ← ySame] at held
    refine .variable ends varies ?_ held.1 held.2
    intro field
    cases field with
    | maxLeft => exact atMaxLeft
    | minLeft => exact atMinLeft
    | maxRight => exact atMaxRight
    | minRight => exact atMinRight

theorem varying_still (off : font.options.variableAnchors = false) (glyph : String) (default : Point)
    (position : Binary64 → Binary64 → Except ResolveError Point) :
    VariationM.Still (varying font glyph default position) := by
  have none : font.varyingLimits? glyph = none := by simp [Font.varyingLimits?, off]
  unfold varying
  rw [none]
  exact .write _

end Anchor

end Kashida
