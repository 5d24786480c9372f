import Kashida.Proofs.Number.Rounding
import Kashida.Proofs.Variation.Sharing
import Mathlib.Data.List.Pairwise

/-! Peaks away from the default. A limit that is not zero can still be so small beside its bound that its peak is zero,
and a region with that peak is always active. Which limits these are is decided by the limit and its bound alone: it is
those below half a step of 2.14, that is, below a 32768th of the bound. -/
namespace Kashida

namespace Binary64

theorem natAbs_units (x : Binary64) : x.units.natAbs = unitsAt x.rank := by
  unfold units
  split <;> simp

theorem units_nonpos (negative : x.negative = true) : units x ≤ 0 := by
  unfold units
  rw [if_pos negative]
  omega

theorem units_nonneg (positive : x.negative = false) : 0 ≤ units x := by
  unfold units
  rw [if_neg (by simp [positive])]
  omega

theorem isZero_eq_false_iff {x : Binary64} : x.isZero = false ↔ x.units ≠ 0 := beq_eq_false_iff_ne

/-- A number other than zero has the sign that its value has. -/
theorem negative_eq {x : Binary64} (nonzero : x.isZero = false) : x.negative = decide (x.units < 0) := by
  have apart := isZero_eq_false_iff.mp nonzero
  cases sign : x.negative with
  | true =>
    have below := units_nonpos sign
    exact (decide_eq_true (by omega)).symm
  | false =>
    have above := units_nonneg sign
    exact (decide_eq_false (by omega)).symm

end Binary64

/-- Minimums are at most zero and maximums at least. -/
def LimitField.OnSide (field : LimitField) (n : Int) : Prop := if field.isMinimum then n ≤ 0 else 0 ≤ n

theorem LimitField.mem_all (field : LimitField) : field ∈ all := by
  cases field <;> decide

open Binary64

/-- The side of a number is that of another one with the same sign. -/
theorem LimitField.OnSide.of_negative_eq {field : LimitField} {x y : Binary64} (side : field.OnSide y.units)
    (nonzero : y.isZero = false) (sign : x.negative = y.negative) : field.OnSide x.units := by
  have apart := isZero_eq_false_iff.mp nonzero
  rw [negative_eq nonzero] at sign
  unfold OnSide at side ⊢
  split at side <;> rename_i minimum
  · rw [if_pos minimum]
    exact units_nonpos (sign.trans (decide_eq_true (by omega)))
  · rw [if_neg minimum]
    exact units_nonneg (sign.trans (decide_eq_false (by omega)))

namespace F2Dot14

theorem ofRounded_eq_ok_iff {x : Rounded} : F2Dot14.ofRounded x = .ok result ↔ ∃ value, x = .finite value ∧
    nearestAway (value.units * Nat.pow 2 14) unitsPerOne = result.raw.toInt := by
  unfold F2Dot14.ofRounded ofRounded? Rounded.scaled?
  cases x with
  | infinite negative => simp
  | finite value =>
    simp only [Rounded.finite.injEq, exists_eq_left']
    generalize nearestAway (value.units * Nat.pow 2 14) unitsPerOne = raw
    by_cases fits : Int16.minValue.toInt ≤ raw ∧ raw ≤ Int16.maxValue.toInt
    · rw [if_pos fits]
      have same : (Int16.ofInt raw).toInt = raw := Int16.toInt_ofInt_of_le fits.1 (Int.lt_add_one_of_le fits.2)
      simp only [Except.ok.injEq]
      constructor
      · rintro rfl
        exact same.symm
      · intro isRaw
        rw [isRaw, Int16.ofInt_toInt]
    · rw [if_neg fits]
      simp only [reduceCtorEq, false_iff]
      rintro rfl
      exact fits ⟨result.raw.le_toInt, result.raw.toInt_le⟩

/-- What is rounded to nothing is less than half a step. -/
theorem raw_eq_zero_iff {value : Binary64} (rounds : F2Dot14.ofRounded (.finite value) = .ok result) :
    result.raw = 0 ↔ value.rank < halfStep := by
  obtain ⟨_, same, isRaw⟩ := ofRounded_eq_ok_iff.mp rounds
  cases same
  have step : Nat.pow 2 14 = 16384 := rfl
  rw [← Int16.toInt_inj, ← isRaw, show (0 : Int16).toInt = 0 from rfl, nearestAway_eq_zero_iff (by decide +kernel),
    lt_halfStep_iff, Int.natAbs_mul, natAbs_units, step]
  generalize unitsPerOne = whole
  simp only [Int.natAbs_natCast]
  omega

/-- Rounding keeps the side of zero. -/
theorem raw_onSide {field : LimitField} {value : Binary64} (rounds : F2Dot14.ofRounded (.finite value) = .ok result)
    (side : field.OnSide value.units) : field.OnSide result.raw.toInt := by
  obtain ⟨_, same, isRaw⟩ := ofRounded_eq_ok_iff.mp rounds
  cases same
  unfold LimitField.OnSide at side ⊢
  rw [← isRaw]
  split at side <;> rename_i minimum
  · rw [if_pos minimum]
    apply nearestAway_nonpos
    exact Int.mul_nonpos_of_nonpos_of_nonneg side (Int.natCast_nonneg _)
  · rw [if_neg minimum]
    apply nearestAway_nonneg
    exact Int.mul_nonneg side (Int.natCast_nonneg _)

end F2Dot14

/-- A fraction has the sign of the bound, because the value is taken without its own. -/
theorem normalize_eq {value bound : Binary64} (nonzero : value.isZero = false) :
    normalize value bound = if bound.isZero then .infinite bound.negative
      else .ofUnits bound.negative (unitsAt value.rank * unitsPerOne) (unitsAt bound.rank) := by
  have magnitude : ∃ magnitude : Binary64, magnitude.negative = false ∧ magnitude.rank = value.rank ∧
      normalize value bound = magnitude.div bound := by
    unfold normalize
    rw [if_neg (by simp [nonzero])]
    have sign := negative_eq nonzero
    by_cases below : value < .zero
    · refine ⟨-value, ?_, rfl, if_pos below⟩
      have isNegative : value.negative = true := sign.trans (decide_eq_true below)
      exact congrArg Bool.not isNegative
    · exact ⟨value, sign.trans (decide_eq_false below), rfl, if_neg below⟩
  obtain ⟨magnitude, positive, sameRank, divided⟩ := magnitude
  rw [divided, Binary64.div, positive, sameRank, Bool.false_xor]

theorem normalize_eq_finite {value bound : Binary64} (nonzero : value.isZero = false)
    (finite : normalize value bound = .finite result) : bound.isZero = false ∧ result.negative = bound.negative ∧
      result.rank = Rounded.nearestRank (unitsAt value.rank * unitsPerOne) (unitsAt bound.rank) := by
  rw [normalize_eq nonzero] at finite
  unfold Rounded.ofUnits at finite
  split at finite
  · cases finite
  · rename_i apart
    dsimp only at finite
    split at finite
    · cases finite
      exact ⟨Bool.eq_false_iff.mpr apart, rfl, rfl⟩
    · cases finite

namespace DeltaSets

/-- What a limit is measured by: itself or the bound of all glyphs if peaks are fractions, and one if they are not. -/
def bound (sets : DeltaSets) (limits : ElongationLimits) (field : LimitField) : Binary64 :=
  if sets.normalized then (sets.uniform.getD limits).get field else .one

/-- A limit that is not zero, but less than half a step of 2.14 beside its bound. -/
def Vanishes (sets : DeltaSets) (limits : ElongationLimits) (field : LimitField) : Prop :=
  (limits.get field).isZero = false ∧ 32768 * (limits.get field).units.natAbs < (sets.bound limits field).units.natAbs

instance (sets : DeltaSets) (limits : ElongationLimits) (field : LimitField) :
    Decidable (sets.Vanishes limits field) := inferInstanceAs (Decidable (_ ∧ _))

theorem Extends.vanishes_iff {before after : DeltaSets} (grown : before.Extends after) :
    after.Vanishes limits field ↔ before.Vanishes limits field := by
  unfold Vanishes bound
  rw [grown.normalized, grown.uniform]

/-- The fraction of a limit is less than half a step only if the limit is. -/
theorem fraction_lt_halfStep_iff {sets : DeltaSets} {limits : ElongationLimits}
    (nonzero : (limits.get field).isZero = false) (finite : sets.fraction limits field = .finite value) :
    value.rank < halfStep ↔ sets.Vanishes limits field := by
  unfold Vanishes bound
  unfold fraction at finite
  simp only [nonzero, true_and, natAbs_units]
  cases mode : sets.normalized with
  | true =>
    rw [mode, if_pos rfl] at finite
    rw [if_pos rfl]
    obtain ⟨apart, _, isRank⟩ := normalize_eq_finite nonzero finite
    rw [isRank]
    apply nearestRank_lt_halfStep_iff
    rw [← natAbs_units]
    exact Int.natAbs_pos.mpr (isZero_eq_false_iff.mp apart)
  | false =>
    rw [mode, if_neg (by decide)] at finite
    rw [if_neg (by decide)]
    cases finite
    have whole : unitsAt Binary64.one.rank = unitsPerOne := by decide +kernel
    rw [whole]
    exact lt_halfStep_iff

theorem peak_raw_eq_zero_iff {sets : DeltaSets} {limits : ElongationLimits} {result : F2Dot14}
    (nonzero : (limits.get field).isZero = false) (isPeak : sets.peak glyph limits field = .ok result) :
    result.raw = 0 ↔ sets.Vanishes limits field := by
  have rounds := (peak_eq_ok_iff.mp isPeak).1
  obtain ⟨value, finite, _⟩ := F2Dot14.ofRounded_eq_ok_iff.mp rounds
  rw [finite] at rounds
  exact (F2Dot14.raw_eq_zero_iff rounds).trans (fraction_lt_halfStep_iff nonzero finite)

/-- An accepted limit lies between zero and its bound. -/
theorem within_of_inoffensive {uniform : Option ElongationLimits} {limits : ElongationLimits} {field : LimitField}
    (inoffensive : offends uniform limits field = false) :
    field.OnSide (limits.get field).units ∧ field.OnSide ((uniform.getD limits).get field).units ∧
      (limits.get field).units.natAbs ≤ ((uniform.getD limits).get field).units.natAbs := by
  have side : field.OnSide (limits.get field).units := by
    have rightSide : (if field.isMinimum then decide (.zero < limits.get field)
        else decide (limits.get field < .zero)) = false := by
      unfold offends at inoffensive
      cases uniform with
      | none => exact inoffensive
      | some bounds => exact (Bool.or_eq_false_iff.mp inoffensive).1
    unfold LimitField.OnSide
    split at rightSide <;> rename_i minimum
    · rw [if_pos minimum]
      exact Int.not_lt.mp (of_decide_eq_false rightSide)
    · rw [if_neg minimum]
      exact Int.not_lt.mp (of_decide_eq_false rightSide)
  refine ⟨side, ?_⟩
  cases uniform with
  | none => exact ⟨side, Nat.le_refl _⟩
  | some bounds =>
    have inside := (Bool.or_eq_false_iff.mp inoffensive).2
    unfold LimitField.OnSide at side ⊢
    split at inside <;> rename_i minimum
    · rw [if_pos minimum] at side ⊢
      have below : (bounds.get field).units ≤ (limits.get field).units := Int.not_lt.mp (of_decide_eq_false inside)
      exact ⟨Int.le_trans below side, by simp only [Option.getD_some]; omega⟩
    · rw [if_neg minimum] at side ⊢
      have above : (limits.get field).units ≤ (bounds.get field).units := Int.not_lt.mp (of_decide_eq_false inside)
      exact ⟨Int.le_trans side above, by simp only [Option.getD_some]; omega⟩

/-- The peak of an accepted limit is on the side of the limit. -/
theorem peak_onSide {sets : DeltaSets} {limits : ElongationLimits} {field : LimitField} {result : F2Dot14}
    (inoffensive : offends sets.uniform limits field = false) (nonzero : (limits.get field).isZero = false)
    (isPeak : sets.peak glyph limits field = .ok result) : field.OnSide result.raw.toInt := by
  have rounds := (peak_eq_ok_iff.mp isPeak).1
  obtain ⟨value, finite, _⟩ := F2Dot14.ofRounded_eq_ok_iff.mp rounds
  rw [finite] at rounds
  apply F2Dot14.raw_onSide rounds
  obtain ⟨side, boundSide, _⟩ := within_of_inoffensive inoffensive
  unfold fraction at finite
  cases mode : sets.normalized with
  | true =>
    rw [mode, if_pos rfl] at finite
    obtain ⟨boundNonzero, sign, _⟩ := normalize_eq_finite nonzero finite
    exact boundSide.of_negative_eq boundNonzero sign
  | false =>
    rw [mode, if_neg (by decide)] at finite
    cases finite
    exact side

theorem eq_zero_of_onSide {field other : LimitField} (apart : field ≠ other) (same : field.axis = other.axis)
    (side : field.OnSide n) (otherSide : other.OnSide n) : n = 0 := by
  have opposite : other.isMinimum = !field.isMinimum := by
    revert apart same
    cases field <;> cases other <;> decide
  unfold LimitField.OnSide at side otherSide
  rw [opposite] at otherSide
  cases minimum : field.isMinimum <;> simp [minimum] at side otherSide <;> omega

/-- The two ends of an axis only meet at the default. -/
theorem peaks_meet_iff {sets : DeltaSets} {limits : ElongationLimits} {field other : LimitField}
    {result otherResult : F2Dot14} (inoffensive : ∀ field ∈ LimitField.all, offends sets.uniform limits field = false)
    (apart : field ≠ other) (same : field.axis = other.axis) (nonzero : (limits.get field).isZero = false)
    (otherNonzero : (limits.get other).isZero = false) (isPeak : sets.peak glyph limits field = .ok result)
    (isOther : sets.peak glyph limits other = .ok otherResult) :
    result = otherResult ↔ sets.Vanishes limits field ∧ sets.Vanishes limits other := by
  have side := peak_onSide (inoffensive field field.mem_all) nonzero isPeak
  have otherSide := peak_onSide (inoffensive other other.mem_all) otherNonzero isOther
  rw [← peak_raw_eq_zero_iff nonzero isPeak, ← peak_raw_eq_zero_iff otherNonzero isOther]
  obtain ⟨raw⟩ := result
  obtain ⟨otherRaw⟩ := otherResult
  rw [F2Dot14.mk.injEq]
  constructor
  · rintro rfl
    have none : raw.toInt = (0 : Int16).toInt := eq_zero_of_onSide apart same side otherSide
    exact ⟨Int16.toInt_inj.mp none, Int16.toInt_inj.mp none⟩
  · rintro ⟨rfl, rfl⟩
    rfl

theorem mem_moving_iff {deltas : EndDeltas} {limits : ElongationLimits} {axisEnd : LimitField × Int} :
    axisEnd ∈ deltas.moving limits ↔ axisEnd ∈ deltas.ends ∧ (limits.get axisEnd.1).isZero = false := by
  unfold EndDeltas.moving
  rw [List.mem_filter, Bool.not_eq_true']

theorem Vanishes.exists_moving {sets : DeltaSets} {limits : ElongationLimits} {field : LimitField}
    (vanishes : sets.Vanishes limits field) (deltas : EndDeltas) :
    ∃ axisEnd ∈ deltas.moving limits, axisEnd.1 = field := by
  obtain ⟨delta, isEnd⟩ : ∃ delta, (field, delta) ∈ deltas.ends := by
    unfold EndDeltas.ends
    cases field <;> simp
  exact ⟨(field, delta), mem_moving_iff.mpr ⟨isEnd, vanishes.1⟩, rfl⟩

section

variable {sets : DeltaSets} {limits : ElongationLimits} {deltas : EndDeltas} {columns : List Column}

/-- A column at the default stands for a limit that vanishes. -/
theorem exists_still_column_iff (carried : List.Forall₂ (sets.Carries glyph limits) (deltas.moving limits) columns) :
    (∃ column ∈ columns, ∃ region, sets.regions[column.region.toNat]? = some region ∧ region.peak.raw = 0) ↔
      ∃ field, sets.Vanishes limits field := by
  constructor
  · rintro ⟨column, member, region, atRegion, still⟩
    obtain ⟨axisEnd, moving, peak, isPeak, isRegion, _⟩ := exists_of_forall₂ carried member
    cases atRegion.symm.trans isRegion
    exact ⟨axisEnd.1, (peak_raw_eq_zero_iff (mem_moving_iff.mp moving).2 isPeak).mp still⟩
  · rintro ⟨field, vanishes⟩
    obtain ⟨axisEnd, moving, rfl⟩ := vanishes.exists_moving deltas
    obtain ⟨column, member, peak, isPeak, isRegion, _⟩ := exists_of_forall₂ carried.flip moving
    exact ⟨column, member, _, isRegion, (peak_raw_eq_zero_iff vanishes.1 isPeak).mpr vanishes⟩

/-- Two columns have the same region only if they stand for both ends of an axis, and both vanish. -/
theorem carries_same_region_iff (valid : sets.Valid)
    (inoffensive : ∀ field ∈ LimitField.all, offends sets.uniform limits field = false)
    {axisEnd other : LimitField × Int} (apart : axisEnd.1 ≠ other.1) (nonzero : (limits.get axisEnd.1).isZero = false)
    (otherNonzero : (limits.get other.1).isZero = false) {column otherColumn : Column}
    (carries : sets.Carries glyph limits axisEnd column) (otherCarries : sets.Carries glyph limits other otherColumn) :
    column.region = otherColumn.region ↔
      axisEnd.1.axis = other.1.axis ∧ sets.Vanishes limits axisEnd.1 ∧ sets.Vanishes limits other.1 := by
  obtain ⟨peak, isPeak, isRegion, _⟩ := carries
  obtain ⟨otherPeak, isOther, otherRegion, _⟩ := otherCarries
  constructor
  · intro same
    rw [same] at isRegion
    obtain ⟨sameAxis, samePeak⟩ := Region.mk.inj (Option.some_inj.mp (isRegion.symm.trans otherRegion))
    exact ⟨sameAxis, (peaks_meet_iff inoffensive apart sameAxis nonzero otherNonzero isPeak isOther).mp samePeak⟩
  · rintro ⟨sameAxis, vanish⟩
    have samePeak := (peaks_meet_iff inoffensive apart sameAxis nonzero otherNonzero isPeak isOther).mpr vanish
    rw [sameAxis, samePeak] at isRegion
    obtain ⟨bound, found⟩ := List.getElem?_eq_some_iff.mp isRegion
    obtain ⟨otherBound, otherFound⟩ := List.getElem?_eq_some_iff.mp otherRegion
    exact UInt16.toNat_inj.mp ((List.Nodup.getElem_inj_iff valid.distinct).mp (found.trans otherFound.symm))

theorem pairwise_moving (deltas : EndDeltas) (limits : ElongationLimits) :
    (deltas.moving limits).Pairwise fun axisEnd other => axisEnd.1 ≠ other.1 := by
  apply List.Pairwise.filter
  unfold EndDeltas.ends
  simp

/-- A row has a region twice only if both limits of an axis vanish. -/
theorem nodup_regions_iff (valid : sets.Valid)
    (inoffensive : ∀ field ∈ LimitField.all, offends sets.uniform limits field = false)
    (carried : List.Forall₂ (sets.Carries glyph limits) (deltas.moving limits) columns) :
    (columns.map Column.region).Nodup ↔ ∀ field other, field ≠ other → field.axis = other.axis →
      sets.Vanishes limits field → ¬sets.Vanishes limits other := by
  have pairs : (deltas.moving limits).Pairwise (fun axisEnd other => ¬(axisEnd.1.axis = other.1.axis ∧
      sets.Vanishes limits axisEnd.1 ∧ sets.Vanishes limits other.1)) ↔
      columns.Pairwise fun column other => column.region ≠ other.region := by
    apply pairwise_iff_of_forall₂ carried
    apply (pairwise_moving deltas limits).imp_of_mem
    intro axisEnd other moving otherMoving apart column otherColumn carries otherCarries
    apply not_congr
    exact (carries_same_region_iff valid inoffensive apart (mem_moving_iff.mp moving).2
      (mem_moving_iff.mp otherMoving).2 carries otherCarries).symm
  rw [List.Nodup, List.pairwise_map, ← pairs]
  constructor
  · intro distinct field other apart sameAxis vanishes otherVanishes
    obtain ⟨axisEnd, moving, rfl⟩ := vanishes.exists_moving deltas
    obtain ⟨otherEnd, otherMoving, rfl⟩ := otherVanishes.exists_moving deltas
    have symmetric : Std.Symm fun axisEnd other : LimitField × Int => ¬(axisEnd.1.axis = other.1.axis ∧
        sets.Vanishes limits axisEnd.1 ∧ sets.Vanishes limits other.1) :=
      ⟨fun _ _ never ⟨same, here, there⟩ => never ⟨same.symm, there, here⟩⟩
    exact distinct.forall moving otherMoving (fun same => apart (congrArg Prod.fst same))
      ⟨sameAxis, vanishes, otherVanishes⟩
  · intro never
    apply (pairwise_moving deltas limits).imp
    rintro axisEnd other apart ⟨sameAxis, vanishes, otherVanishes⟩
    exact never _ _ apart sameAxis vanishes otherVanishes

end

section

variable {sets : DeltaSets} {request : Request} {answer : Except CompileError DeltaSetIndex}

/-- What is registered for a request are regions of limits other than zero. -/
theorem Serving.regions (serving : Serving sets request answer after) :
    ∀ region ∈ after.regions, region ∈ sets.regions ∨ ∃ field result,
      (request.limits.get field).isZero = false ∧ sets.peak request.glyph request.limits field = .ok result ∧
        region = ⟨field.axis, result⟩ := by
  cases serving with
  | refused => exact fun _ => .inl
  | failed _ registered => exact (columns_registers registered).regions
  | found _ registered => exact (columns_registers registered).regions
  | unnumbered _ registered _ pushed =>
    rw [(pushRow_frame pushed).2.1]
    exact (columns_registers registered).regions
  | added _ registered _ pushed =>
    rw [(pushRow_frame pushed).2.1]
    exact (columns_registers registered).regions

/-- A group that a request opens has the regions of its columns. -/
theorem Serving.groups (serving : Serving sets request answer after) :
    ∀ group ∈ after.groups, (∃ old ∈ sets.groups, old.regions = group.regions) ∨
      (∀ field ∈ LimitField.all, offends sets.uniform request.limits field = false) ∧ ∃ columns middle,
        sets.columns request.glyph request.limits request.deltas.ends = (.ok columns, middle) ∧
          group.regions = (Column.sort columns).map Column.region := by
  intro group member
  cases serving with
  | refused => exact .inl ⟨group, member, rfl⟩
  | failed _ registered => exact .inl ⟨group, (columns_registers registered).groups ▸ member, rfl⟩
  | found _ registered => exact .inl ⟨group, (columns_registers registered).groups ▸ member, rfl⟩
  | unnumbered accepted registered _ pushed =>
    rw [← (columns_registers registered).groups]
    apply ((pushRow_frame pushed).2.2 group member).imp_right
    exact fun isRegions => ⟨validate_eq_ok_iff.mp accepted, _, _, registered, isRegions⟩
  | added accepted registered _ pushed =>
    rw [← (columns_registers registered).groups]
    apply ((pushRow_frame pushed).2.2 group member).imp_right
    exact fun isRegions => ⟨validate_eq_ok_iff.mp accepted, _, _, registered, isRegions⟩

end

/-- No region is active at the default, and no row has a region twice. -/
structure OffDefault (sets : DeltaSets) : Prop where
  peaks : ∀ region ∈ sets.regions, region.peak.raw ≠ 0
  once : ∀ group ∈ sets.groups, group.regions.Nodup

namespace OffDefault

theorem initial (normalized : Bool) (uniform : Option ElongationLimits) : OffDefault { normalized, uniform } := by
  constructor
  · intro region member
    cases member
  · intro group member
    cases Array.not_mem_empty group member

theorem serve {sets : DeltaSets} (offDefault : sets.OffDefault) (valid : sets.Valid)
    (none : ∀ field, ¬sets.Vanishes request.limits field) : (sets.serve request).OffDefault := by
  have serving := sets.serving request
  constructor
  · intro region member
    rcases serving.regions region member with old | ⟨field, result, nonzero, isPeak, rfl⟩
    · exact offDefault.peaks region old
    · exact fun still => none field ((peak_raw_eq_zero_iff nonzero isPeak).mp still)
  · intro group member
    rcases serving.groups group member with ⟨old, there, same⟩ | ⟨inoffensive, columns, middle, registered, isRegions⟩
    · exact same ▸ offDefault.once old there
    · obtain ⟨validMiddle, grown, carried⟩ := columns_grows valid registered
      rw [isRegions, ((Column.sort_perm columns).map Column.region).nodup_iff]
      rw [← grown.uniform] at inoffensive
      apply (nodup_regions_iff validMiddle inoffensive (carried columns rfl)).mpr
      intro field _ _ _ vanishes
      exact absurd (grown.vanishes_iff.mp vanishes) (none field)

theorem serveAll {sets : DeltaSets} (offDefault : sets.OffDefault) (valid : sets.Valid) (run : List Request)
    (none : ∀ request ∈ run, ∀ field, ¬sets.Vanishes request.limits field) : (sets.serveAll run).OffDefault := by
  induction run generalizing sets with
  | nil => exact offDefault
  | cons request run ih =>
    obtain ⟨validNext, grown, _⟩ := allocate_grows valid (allocate_eq sets request)
    apply ih (offDefault.serve valid (none request List.mem_cons_self)) validNext
    intro later member field vanishes
    exact none later (List.mem_cons_of_mem request member) field (grown.vanishes_iff.mp vanishes)

end OffDefault

/-- If no limit vanishes beside its bound, all peaks are away from the default, and no row has a region twice. In any
run, a row has a region that is always active exactly if a limit of its request vanishes, and it has that region twice
exactly if both limits of an axis do. -/
theorem regions_off_default_unless_vanishing (normalized : Bool) (uniform : Option ElongationLimits)
    (run : List Request) :
    let start : DeltaSets := { normalized, uniform }
    let sets := start.serveAll run
    ((∀ request ∈ run, ∀ field, ¬start.Vanishes request.limits field) →
      (∀ region ∈ sets.regions, region.peak.raw ≠ 0) ∧ ∀ group ∈ sets.groups, group.regions.Nodup) ∧
    ∀ request columns index, start.Granted run request columns index → sets.row? index = some columns ∧
      ((∃ column ∈ columns, ∃ region, sets.regions[column.region.toNat]? = some region ∧ region.peak.raw = 0) ↔
        ∃ field, start.Vanishes request.limits field) ∧
      ((columns.map Column.region).Nodup ↔ ∀ field other, field ≠ other → field.axis = other.axis →
        start.Vanishes request.limits field → ¬start.Vanishes request.limits other) := by
  intro start sets
  have valid : sets.Valid := valid_serveAll normalized uniform run
  have grown : start.Extends sets := (serveAll_grows (.initial normalized uniform) run).2
  constructor
  · intro none
    obtain ⟨peaks, once⟩ := (OffDefault.initial normalized uniform).serveAll (.initial normalized uniform) run none
    exact ⟨peaks, once⟩
  · intro request columns index granted
    refine ⟨valid.indexed columns index granted.remembered, ?_⟩
    obtain ⟨inoffensive, carrying, isSorted, carried⟩ := granted.carried
    have sorted := Column.sort_perm carrying
    rw [isSorted, (sorted.map Column.region).nodup_iff]
    simp only [sorted.mem_iff, ← grown.vanishes_iff]
    exact ⟨exists_still_column_iff carried, nodup_regions_iff valid inoffensive carried⟩

/-- Minimums of -8 and maximums of 8. -/
def wideBounds : ElongationLimits :=
  let eight : Binary64 := ⟨false, 1026 * Nat.pow 2 52, by decide⟩
  ⟨-eight, eight, -eight, eight⟩

/-- Both ways to the left, by the number of this rank. -/
def leftLimits (rank : Nat) (rank_lt : rank < 2047 * Nat.pow 2 52) : ElongationLimits :=
  { minLeft := ⟨true, rank, rank_lt⟩, maxLeft := ⟨false, rank, rank_lt⟩ }

/-- Limits of 2^-12, which are a 32768th of their bounds, still have peaks. -/
theorem regions_off_default_unless_vanishing_of_half_steps :
    let limits := leftLimits (1011 * Nat.pow 2 52) (by decide)
    let request : Request := ⟨"beh", ⟨30, -10, 0, 0⟩, limits⟩
    let start : DeltaSets := { normalized := true, uniform := some wideBounds }
    let sets := start.serveAll [request]
    sets.regions = [⟨.left, ⟨1⟩⟩, ⟨.left, ⟨-1⟩⟩] ∧ (∀ field, ¬start.Vanishes limits field) ∧
      (∀ region ∈ sets.regions, region.peak.raw ≠ 0) ∧ ∀ group ∈ sets.groups, group.regions.Nodup := by
  intro limits request start sets
  have none : ∀ field, ¬start.Vanishes limits field := by
    intro field
    cases field <;> decide +kernel
  refine ⟨by decide +kernel, none, ?_⟩
  apply (regions_off_default_unless_vanishing true (some wideBounds) [request]).1
  intro other member
  cases List.mem_singleton.mp member
  exact none

/-- Limits of 2^-13 have a region at the default, and both changes of the row are in it. -/
theorem vanishing_limits_share_still_region :
    let limits := leftLimits (1010 * Nat.pow 2 52) (by decide)
    let request : Request := ⟨"beh", ⟨30, -10, 0, 0⟩, limits⟩
    let start : DeltaSets := { normalized := true, uniform := some wideBounds }
    let sets := start.serveAll [request]
    start.answer request = .ok ⟨0, 0⟩ ∧ sets.regions = [⟨.left, ⟨0⟩⟩] ∧
      sets.row? ⟨0, 0⟩ = some [⟨0, -10⟩, ⟨0, 30⟩] := by
  decide +kernel

end DeltaSets

end Kashida
