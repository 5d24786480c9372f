import Kashida.Proofs.Variation.Peaks

/-! Normalization is well defined. A limit that is accepted is no larger than what it is divided by and has its sign, so
that the fraction is on the axis and always has a peak. What can still fail is told by the request and by how many
regions and groups there are. -/
namespace Kashida

open Binary64

theorem units_one : unitsAt one.rank = unitsPerOne := by
  decide +kernel

/-- The fraction of a value that is no larger than its bound is at most one. -/
theorem normalize_within {value bound : Binary64} (nonzero : value.isZero = false)
    (within : value.units.natAbs ≤ bound.units.natAbs) : ∃ result, normalize value bound = .finite result ∧
      result.negative = bound.negative ∧ result.units.natAbs ≤ unitsPerOne := by
  have apart : bound.isZero = false := by
    rw [isZero_eq_false_iff] at nonzero ⊢
    omega
  rw [natAbs_units, natAbs_units] at within
  have positive : 0 < unitsAt bound.rank := by
    rw [← natAbs_units]
    exact Int.natAbs_pos.mpr (isZero_eq_false_iff.mp apart)
  have small : Rounded.nearestRank (unitsAt value.rank * unitsPerOne) (unitsAt bound.rank) ≤ one.rank := by
    apply Rounded.nearestRank_le positive
    rw [units_one]
    exact Nat.mul_le_mul_right _ within
  have finite := Nat.lt_of_le_of_lt small one.rank_lt
  refine ⟨⟨bound.negative, _, finite⟩, ?_, rfl, ?_⟩
  · rw [normalize_eq nonzero, if_neg (by simp [apart]), Rounded.ofUnits]
    exact dif_pos finite
  · exact Nat.le_trans (Nat.le_of_eq (natAbs_units _))
      (Nat.le_trans (unitsAt_le_iff.mpr small) (Nat.le_of_eq units_one))

/-- There is a 2.14 number for every number on the axis. -/
theorem F2Dot14.exists_ofRounded {value : Binary64} (onAxis : value.units.natAbs ≤ unitsPerOne) :
    ∃ result, F2Dot14.ofRounded (.finite value) = .ok result ∧ result.raw.toInt.natAbs ≤ 16384 := by
  have positive : 0 < unitsPerOne := by decide +kernel
  have small : (nearestAway (value.units * Nat.pow 2 14) unitsPerOne).natAbs ≤ 16384 :=
    natAbs_nearestAway_mul_le positive onAxis (Nat.pow 2 14)
  generalize isRaw : nearestAway (value.units * Nat.pow 2 14) unitsPerOne = raw at small
  have same : (Int16.ofInt raw).toInt = raw := Int16.toInt_ofInt_of_le (by omega) (by omega)
  refine ⟨⟨.ofInt raw⟩, ofRounded_eq_ok_iff.mpr ⟨value, rfl, isRaw.trans same.symm⟩, ?_⟩
  rwa [same]

theorem LimitField.OnSide.mul_nonneg {field : LimitField} (side : field.OnSide m) (other : field.OnSide n) :
    0 ≤ m * n := by
  unfold OnSide at side other
  split at side <;> rename_i minimum
  · rw [if_pos minimum] at other
    exact Int.mul_nonneg_of_nonpos_of_nonpos side other
  · rw [if_neg minimum] at other
    exact Int.mul_nonneg side other

namespace DeltaSets

/-- A limit on the wrong side of zero, or beyond the bound of all glyphs. -/
def Misplaced (uniform : Option ElongationLimits) (limits : ElongationLimits) (field : LimitField) : Prop :=
  if field.isMinimum then 0 < (limits.get field).units ∨
    ∃ bounds, uniform = some bounds ∧ (limits.get field).units < (bounds.get field).units
  else (limits.get field).units < 0 ∨
    ∃ bounds, uniform = some bounds ∧ (bounds.get field).units < (limits.get field).units

theorem offends_iff {uniform : Option ElongationLimits} {limits : ElongationLimits} {field : LimitField} :
    offends uniform limits field = true ↔ Misplaced uniform limits field := by
  have order : ∀ x y : Binary64, x < y ↔ x.units < y.units := fun x y => Iff.rfl
  have zero : Binary64.zero.units = 0 := by decide
  unfold offends Misplaced
  cases uniform with
  | none => cases field.isMinimum <;> simp [order, zero]
  | some bounds => cases field.isMinimum <;> simp [order, zero]

/-- Limits are refused for the first one that is misplaced. -/
theorem validate_eq_error_iff {sets : DeltaSets} {limits : ElongationLimits} {error : BoundsError} :
    sets.validate glyph limits = .error error ↔ ∃ earlier field later, LimitField.all = earlier ++ field :: later ∧
      (∀ other ∈ earlier, ¬Misplaced sets.uniform limits other) ∧ Misplaced sets.uniform limits field ∧
      error = ⟨glyph, field, limits.get field, (sets.uniform.map (·.get field)).getD .zero⟩ := by
  have first : ∀ field, LimitField.all.find? (offends sets.uniform limits) = some field ↔
      ∃ earlier later, LimitField.all = earlier ++ field :: later ∧
        (∀ other ∈ earlier, ¬Misplaced sets.uniform limits other) ∧ Misplaced sets.uniform limits field := by
    intro field
    simp only [List.find?_eq_some_iff_append, Bool.not_eq_true', ← offends_iff, Bool.not_eq_true]
    constructor
    · rintro ⟨here, earlier, later, parts, before⟩
      exact ⟨earlier, later, parts, before, here⟩
    · rintro ⟨earlier, later, parts, before, here⟩
      exact ⟨here, earlier, later, parts, before⟩
  unfold validate
  constructor
  · intro refused
    split at refused
    · cases refused
    · rename_i field found
      cases refused
      obtain ⟨earlier, later, parts, before, here⟩ := (first field).mp found
      exact ⟨earlier, field, later, parts, before, here, rfl⟩
  · rintro ⟨earlier, field, later, parts, before, here, rfl⟩
    rw [(first field).mpr ⟨earlier, later, parts, before, here⟩]

section

variable {sets : DeltaSets} {limits : ElongationLimits} {field : LimitField}

/-- What an accepted limit is divided by is not zero, has its sign and is no smaller. -/
theorem divisor_of_accepted (accepted : sets.validate glyph limits = .ok ())
    (nonzero : (limits.get field).isZero = false) :
    ((sets.uniform.getD limits).get field).isZero = false ∧
      ((sets.uniform.getD limits).get field).negative = (limits.get field).negative ∧
      (limits.get field).units.natAbs ≤ ((sets.uniform.getD limits).get field).units.natAbs := by
  obtain ⟨side, boundSide, within⟩ := within_of_inoffensive (validate_eq_ok_iff.mp accepted field field.mem_all)
  have apart : ((sets.uniform.getD limits).get field).isZero = false := by
    rw [isZero_eq_false_iff] at nonzero ⊢
    omega
  refine ⟨apart, ?_, within⟩
  rw [negative_eq apart, negative_eq nonzero, decide_eq_decide]
  rw [isZero_eq_false_iff] at nonzero apart
  unfold LimitField.OnSide at side boundSide
  split at side <;> rename_i minimum
  · rw [if_pos minimum] at boundSide
    omega
  · rw [if_neg minimum] at boundSide
    omega

theorem exists_peak (normalized : sets.normalized = true) (accepted : sets.validate glyph limits = .ok ())
    (nonzero : (limits.get field).isZero = false) :
    ∃ result, sets.peak glyph limits field = .ok result ∧ result.raw.toInt.natAbs ≤ 16384 := by
  obtain ⟨_, _, within⟩ := divisor_of_accepted accepted nonzero
  obtain ⟨value, finite, _, onAxis⟩ := normalize_within nonzero within
  obtain ⟨result, rounds, small⟩ := F2Dot14.exists_ofRounded onAxis
  refine ⟨result, peak_eq_ok_iff.mpr ⟨?_, by simp [normalized]⟩, small⟩
  rwa [fraction, if_pos normalized, finite]

end

/-- A region that is not there, and there is no number left for it. -/
def LacksRegion (sets : DeltaSets) (region : Region) : Prop := 65536 ≤ sets.regions.length ∧ region ∉ sets.regions

/-- All groups with numbers have other regions or are full. -/
def LacksGroup (sets : DeltaSets) (columns : List Column) : Prop :=
  ∀ number < 65536, ∃ group, sets.groups[number]? = some group ∧
    ¬(group.regions = columns.map Column.region ∧ group.rows.size < maxRows)

theorem registerRegion_error {sets next : DeltaSets} {region : Region}
    (step : sets.registerRegion region = (.error error, next)) :
    error = .badValue ∧ next = sets ∧ sets.LacksRegion region := by
  unfold registerRegion at step
  split at step
  · cases step
  · rename_i unknown
    split at step
    · cases step
    · rename_i failed
      cases step
      obtain ⟨many, isBad⟩ := count16_eq_error_iff.mp failed
      exact ⟨isBad, rfl, many, List.idxOf?_eq_none_iff.mp unknown⟩

theorem registerRegion_ok {sets next : DeltaSets} {region : Region}
    (step : sets.registerRegion region = (.ok number, next)) : region ∈ next.regions := by
  unfold registerRegion at step
  split at step
  · rename_i index known
    cases step
    by_contra missing
    rw [List.idxOf?_eq_none_iff.mpr missing] at known
    cases known
  · split at step
    · cases step
      exact List.mem_append_right _ List.mem_cons_self
    · cases step

theorem registerRegion_keeps {sets next : DeltaSets} {region old : Region} (there : old ∈ sets.regions)
    (step : sets.registerRegion region = (outcome, next)) : old ∈ next.regions := by
  unfold registerRegion at step
  split at step
  · cases step
    exact there
  · split at step
    · cases step
      exact List.mem_append_left _ there
    · cases step
      exact there

theorem columns_keeps {sets after : DeltaSets} {ends : List (LimitField × Int)} {old : Region}
    (there : old ∈ sets.regions) (registered : sets.columns glyph limits ends = (outcome, after)) :
    old ∈ after.regions := by
  obtain rfl : (sets.columns glyph limits ends).2 = after := by rw [registered]
  clear registered
  fun_induction columns sets glyph limits ends with
  | case1 sets => exact there
  | case2 sets field delta ends zero ih => exact ih there
  | case3 sets field delta ends moves error noPeak => exact there
  | case4 sets field delta ends moves peak isPeak error next step => exact registerRegion_keeps there step
  | case5 sets field delta ends moves peak isPeak region next step error wide => exact registerRegion_keeps there step
  | case6 sets field delta ends moves peak isPeak region next step narrow fits columns final rest ih =>
    rw [rest] at ih
    exact ih (registerRegion_keeps there step)
  | case7 sets field delta ends moves peak isPeak region next step narrow fits error final rest ih =>
    rw [rest] at ih
    exact ih (registerRegion_keeps there step)

/-- Where there are columns, every change fits and every region is registered. -/
theorem columns_met {sets after : DeltaSets} {ends : List (LimitField × Int)} {columns : List Column}
    (registered : sets.columns glyph limits ends = (.ok columns, after)) : ∀ axisEnd ∈ ends,
      (limits.get axisEnd.1).isZero = false → (-32768 ≤ axisEnd.2 ∧ axisEnd.2 ≤ 32767) ∧
        ∃ result, sets.peak glyph limits axisEnd.1 = .ok result ∧ ⟨axisEnd.1.axis, result⟩ ∈ after.regions := by
  fun_induction DeltaSets.columns sets glyph limits ends generalizing columns after with
  | case1 sets => simp
  | case2 sets field delta ends zero ih =>
    intro axisEnd member moves
    rcases List.mem_cons.mp member with rfl | later
    · rw [zero] at moves
      cases moves
    · exact ih registered axisEnd later moves
  | case6 sets field delta ends moves peak isPeak region next step narrow fits found final rest ih =>
    cases registered
    intro axisEnd member moving
    rcases List.mem_cons.mp member with rfl | later
    · exact ⟨(coordinate16_eq_ok_iff.mp fits).1, peak, isPeak, columns_keeps (registerRegion_ok step) rest⟩
    · rw [← (registerRegion_registers moves isPeak step).peak]
      exact ih rest axisEnd later moving
  | case3 | case4 | case5 | case7 => cases registered

/-- Where there are none although all limits have peaks, a change is too large or there is no number for a region. -/
theorem columns_failed {sets after : DeltaSets} {limits : ElongationLimits} {ends : List (LimitField × Int)}
    (peaks : ∀ field, (limits.get field).isZero = false → ∃ result, sets.peak glyph limits field = .ok result)
    (registered : sets.columns glyph limits ends = (.error error, after)) :
    error = .write .badValue ∧ ∃ axisEnd ∈ ends, (limits.get axisEnd.1).isZero = false ∧
      (¬(-32768 ≤ axisEnd.2 ∧ axisEnd.2 ≤ 32767) ∨ ∃ result, sets.peak glyph limits axisEnd.1 = .ok result ∧
        after.LacksRegion ⟨axisEnd.1.axis, result⟩) := by
  fun_induction DeltaSets.columns sets glyph limits ends generalizing error after with
  | case1 | case6 => cases registered
  | case2 sets field delta ends zero ih =>
    obtain ⟨isBad, axisEnd, member, reason⟩ := ih peaks registered
    exact ⟨isBad, axisEnd, List.mem_cons_of_mem _ member, reason⟩
  | case3 sets field delta ends moves error noPeak =>
    obtain ⟨result, isPeak⟩ := peaks field (Bool.eq_false_iff.mpr moves)
    rw [isPeak] at noPeak
    cases noPeak
  | case4 sets field delta ends moves peak isPeak error next step =>
    cases registered
    obtain ⟨rfl, rfl, lacks⟩ := registerRegion_error step
    exact ⟨rfl, _, List.mem_cons_self, Bool.eq_false_iff.mpr moves, .inr ⟨peak, isPeak, lacks⟩⟩
  | case5 sets field delta ends moves peak isPeak region next step error wide =>
    cases registered
    obtain ⟨outside, rfl⟩ := coordinate16_eq_error_iff.mp wide
    exact ⟨rfl, _, List.mem_cons_self, Bool.eq_false_iff.mpr moves, .inl outside⟩
  | case7 sets field delta ends moves peak isPeak region next step narrow fits error final rest ih =>
    cases registered
    have same := (registerRegion_registers moves isPeak step).peak
    simp only [same] at ih
    obtain ⟨isBad, axisEnd, member, reason⟩ := ih peaks rest
    exact ⟨isBad, axisEnd, List.mem_cons_of_mem _ member, reason⟩

/-- The group that takes a row has room for it. -/
theorem rowCount_openGroup_lt (sets : DeltaSets) (regions : List UInt16) :
    (sets.openGroup regions).2.rowCount (sets.openGroup regions).1 < maxRows := by
  unfold openGroup rowCount
  split
  · rename_i outer found
    obtain ⟨bound, here, _⟩ := Array.findIdx?_eq_some_iff_getElem.mp found
    rw [Array.getElem?_eq_getElem bound]
    exact (of_decide_eq_true (Bool.and_eq_true_iff.mp here).2)
  · rw [Array.getElem?_push_size]
    exact Nat.zero_lt_succ _

theorem openGroup_number_iff {sets : DeltaSets} {columns : List Column} :
    65535 < (sets.openGroup (columns.map Column.region)).1 ↔ sets.LacksGroup columns := by
  unfold openGroup LacksGroup
  split
  · rename_i outer found
    obtain ⟨inside, here, before⟩ := Array.findIdx?_eq_some_iff_getElem.mp found
    simp only [Bool.and_eq_true, beq_iff_eq, decide_eq_true_eq] at here before
    constructor
    · intro beyond number small
      have earlier : number < outer := Nat.lt_of_lt_of_le small beyond
      exact ⟨_, Array.getElem?_eq_getElem (Nat.lt_trans earlier inside), before number earlier⟩
    · intro lacks
      by_contra numbered
      obtain ⟨group, found, closed⟩ := lacks outer (by omega)
      rw [Array.getElem?_eq_getElem inside] at found
      cases found
      exact closed here
  · rename_i none
    simp only [Array.findIdx?_eq_none_iff, Bool.and_eq_false_iff, beq_eq_false_iff_ne, decide_eq_false_iff_not,
      ← not_and_or] at none
    constructor
    · intro beyond number small
      have inside : number < sets.groups.size := Nat.lt_of_lt_of_le small beyond
      exact ⟨_, Array.getElem?_eq_getElem inside, none _ (Array.getElem_mem inside)⟩
    · intro lacks
      obtain ⟨group, found, _⟩ := lacks 65535 (by decide)
      exact (Array.getElem?_eq_some_iff.mp found).1

theorem pushRow_eq_error_iff {sets : DeltaSets} {columns : List Column} {error : WriteError} :
    (sets.pushRow columns).1 = .error error ↔ error = .badValue ∧ sets.LacksGroup columns := by
  have room := rowCount_openGroup_lt sets (columns.map Column.region)
  rw [← openGroup_number_iff]
  unfold pushRow
  generalize sets.openGroup (columns.map Column.region) = opened at room ⊢
  obtain ⟨inner, counted⟩ := exists_count16_iff.mpr (Nat.le_of_lt room)
  constructor
  · intro failed
    rcases bind_eq_error_iff.mp failed with beyond | ⟨outer, _, failed⟩
    · exact (count16_eq_error_iff.mp beyond).symm
    · rw [counted] at failed
      cases failed
  · rintro ⟨rfl, beyond⟩
    exact bind_eq_error_iff.mpr (.inl (count16_eq_error_iff.mpr ⟨beyond, rfl⟩))

/-- What keeps a request with accepted limits from being met: a change too large for a delta, or no number for a region
in the delta sets that are left behind, or no number for the group of a new row. -/
def Unmet (sets : DeltaSets) (request : Request) (after : DeltaSets) : Prop :=
  (∃ axisEnd ∈ request.deltas.moving request.limits, ¬(-32768 ≤ axisEnd.2 ∧ axisEnd.2 ≤ 32767)) ∨
  (∃ axisEnd ∈ request.deltas.moving request.limits, ∃ result,
    sets.peak request.glyph request.limits axisEnd.1 = .ok result ∧ after.LacksRegion ⟨axisEnd.1.axis, result⟩) ∨
  ∃ columns, sets.sortedColumns request = .ok columns ∧ sets.indexes[columns]? = none ∧ sets.LacksGroup columns

namespace Serving

variable {sets after : DeltaSets} {request : Request}

theorem unmet_of_error (serving : Serving sets request (.error error) after) (normalized : sets.normalized = true) :
    (∃ refusal, sets.validate request.glyph request.limits = .error refusal ∧ error = .axisBounds refusal) ∨
    sets.validate request.glyph request.limits = .ok () ∧ error = .write .badValue ∧ sets.Unmet request after := by
  cases serving with
  | refused offending => exact .inl ⟨_, offending, rfl⟩
  | failed accepted registered =>
    have peaks : ∀ field, (request.limits.get field).isZero = false →
        ∃ result, sets.peak request.glyph request.limits field = .ok result :=
      fun field nonzero => (exists_peak normalized accepted nonzero).imp fun _ found => found.1
    obtain ⟨isBad, axisEnd, member, moves, reason⟩ := columns_failed peaks registered
    refine .inr ⟨accepted, isBad, ?_⟩
    have moving := mem_moving_iff.mpr ⟨member, moves⟩
    rcases reason with wide | lacks
    · exact .inl ⟨axisEnd, moving, wide⟩
    · exact .inr (.inl ⟨axisEnd, moving, lacks⟩)
  | @unnumbered columns middle _ _ accepted registered new pushed =>
    obtain ⟨rfl, lacks⟩ := pushRow_eq_error_iff.mp (congrArg Prod.fst pushed)
    have frame := columns_registers registered
    refine .inr ⟨accepted, rfl, .inr (.inr ⟨Column.sort columns, ?_, frame.indexes ▸ new, ?_⟩)⟩
    · rw [sortedColumns, registered]
      rfl
    · rwa [LacksGroup, ← frame.groups]

theorem not_unmet_of_ok (serving : Serving sets request (.ok index) after) : ¬sets.Unmet request after := by
  obtain ⟨columns, middle, registered, sameRegions, roomy⟩ : ∃ columns middle,
      sets.columns request.glyph request.limits request.deltas.ends = (.ok columns, middle) ∧
      after.regions = middle.regions ∧
      (middle.indexes[Column.sort columns]? = none → ¬middle.LacksGroup (Column.sort columns)) := by
    cases serving with
    | found accepted registered known => exact ⟨_, _, registered, rfl, by simp [known]⟩
    | added accepted registered new pushed =>
      refine ⟨_, _, registered, (pushRow_frame pushed).2.1, fun _ lacks => ?_⟩
      have failed := pushRow_eq_error_iff.mpr ⟨rfl, lacks⟩
      rw [pushed] at failed
      cases failed
  have frame := columns_registers registered
  have met := columns_met registered
  rintro (⟨axisEnd, moving, wide⟩ | ⟨axisEnd, moving, result, isPeak, _, missing⟩ | ⟨_, sorted, new, lacks⟩)
  · obtain ⟨member, moves⟩ := mem_moving_iff.mp moving
    exact wide (met axisEnd member moves).1
  · obtain ⟨member, moves⟩ := mem_moving_iff.mp moving
    obtain ⟨_, peak, found, there⟩ := met axisEnd member moves
    cases isPeak.symm.trans found
    exact missing (sameRegions ▸ there)
  · rw [sortedColumns, registered] at sorted
    cases sorted
    rw [LacksGroup, ← frame.groups] at lacks
    exact roomy (frame.indexes ▸ new) lacks

/-- A request fails only for its limits, its changes or for lack of numbers, and then it always does. -/
theorem answer_eq_error_iff {answer : Except CompileError DeltaSetIndex} (serving : Serving sets request answer after)
    (normalized : sets.normalized = true) : answer = .error error ↔
      (∃ refusal, sets.validate request.glyph request.limits = .error refusal ∧ error = .axisBounds refusal) ∨
      sets.validate request.glyph request.limits = .ok () ∧ error = .write .badValue ∧ sets.Unmet request after := by
  cases answer with
  | ok index =>
    have accepted : sets.validate request.glyph request.limits = .ok () :=
      validate_eq_ok_iff.mpr serving.inoffensive
    simp [accepted, serving.not_unmet_of_ok]
  | error failure =>
    constructor
    · rintro ⟨⟩
      exact serving.unmet_of_error normalized
    · rcases serving.unmet_of_error normalized with ⟨refusal, refused, rfl⟩ | ⟨accepted, rfl, _⟩
      · rintro (⟨other, same, rfl⟩ | ⟨accepted, _⟩)
        · cases refused.symm.trans same
          rfl
        · cases refused.symm.trans accepted
      · rintro (⟨other, refused, _⟩ | ⟨_, rfl, _⟩)
        · cases refused.symm.trans accepted
        · rfl

end Serving

/-- Normalization is always well defined. What a limit is divided by, if limits are accepted and the limit is not zero,
is not zero, has the sign of the limit and is no smaller; the fraction is between -1 and 1 with that sign, and there is
a 2.14 number for it. Limits are refused exactly for the first one that is on the wrong side of zero or beyond the bound
of all glyphs. So a request fails exactly if its limits are refused, if a change does not fit in 16 bits, if no number
is left for a region, or if none is left for the group of a new row. -/
theorem normalization_well_defined (sets : DeltaSets) (normalized : sets.normalized = true) (request : Request) :
    let limits := request.limits
    let divisor := fun field => (sets.uniform.getD limits).get field
    (sets.validate request.glyph limits = .ok () → ∀ field, (limits.get field).isZero = false →
      (divisor field).isZero = false ∧ (divisor field).negative = (limits.get field).negative ∧
      (limits.get field).units.natAbs ≤ (divisor field).units.natAbs ∧
      (∃ value, normalize (limits.get field) (divisor field) = .finite value ∧
        value.negative = (limits.get field).negative ∧ value.units.natAbs ≤ unitsPerOne) ∧
      ∃ peak, sets.peak request.glyph limits field = .ok peak ∧ peak.raw.toInt.natAbs ≤ 16384 ∧
        0 ≤ peak.raw.toInt * (limits.get field).units) ∧
    (∀ refusal, sets.validate request.glyph limits = .error refusal ↔
      ∃ earlier field later, [.minLeft, .maxLeft, .minRight, .maxRight] = earlier ++ field :: later ∧
        (∀ other ∈ earlier, ¬Misplaced sets.uniform limits other) ∧ Misplaced sets.uniform limits field ∧
        refusal = ⟨request.glyph, field, limits.get field, (sets.uniform.map (·.get field)).getD .zero⟩) ∧
    ∀ error, (sets.allocate request.glyph request.deltas limits).1 = .error error ↔
      (∃ refusal, sets.validate request.glyph limits = .error refusal ∧ error = .axisBounds refusal) ∨
      sets.validate request.glyph limits = .ok () ∧ error = .write .badValue ∧
        sets.Unmet request (sets.allocate request.glyph request.deltas limits).2 := by
  intro limits divisor
  refine ⟨?_, fun refusal => validate_eq_error_iff, fun error => (sets.serving request).answer_eq_error_iff normalized⟩
  intro accepted field nonzero
  obtain ⟨apart, sign, within⟩ := divisor_of_accepted accepted nonzero
  obtain ⟨value, finite, valueSign, onAxis⟩ := normalize_within nonzero within
  obtain ⟨peak, isPeak, small⟩ := exists_peak normalized accepted nonzero
  refine ⟨apart, sign, within, ⟨value, finite, valueSign.trans sign, onAxis⟩, peak, isPeak, small, ?_⟩
  have inoffensive := validate_eq_ok_iff.mp accepted field field.mem_all
  exact (peak_onSide inoffensive nonzero isPeak).mul_nonneg (within_of_inoffensive inoffensive).1

/-- Limits of -1 and 1 beside bounds of -8 and 8. The peak of the minimum is on its side, and a change of 40000 is
refused. With the limits the wrong way round the minimum is refused first. -/
theorem normalization_well_defined_of_eighths :
    let limits := leftLimits one.rank one.rank_lt
    let sets : DeltaSets := { normalized := true, uniform := some wideBounds }
    let turned : ElongationLimits := { minLeft := one, maxLeft := negOne }
    sets.normalized = true ∧ sets.validate "beh" limits = .ok () ∧ (limits.get .minLeft).isZero = false ∧
      (∃ peak, sets.peak "beh" limits .minLeft = .ok peak ∧ peak.raw.toInt.natAbs ≤ 16384 ∧
        0 ≤ peak.raw.toInt * (limits.get .minLeft).units) ∧
      (sets.allocate "beh" ⟨40000, 0, 0, 0⟩ limits).1 = .error (.write .badValue) ∧
      sets.validate "beh" turned = .error ⟨"beh", .minLeft, one, wideBounds.minLeft⟩ := by
  intro limits sets turned
  have accepted : sets.validate "beh" limits = .ok () := by decide +kernel
  have nonzero : (limits.get .minLeft).isZero = false := by decide +kernel
  have wide : (LimitField.maxLeft, (40000 : Int)) ∈ EndDeltas.moving ⟨40000, 0, 0, 0⟩ limits := by decide +kernel
  obtain ⟨divided, _, fails⟩ := normalization_well_defined sets rfl ⟨"beh", ⟨40000, 0, 0, 0⟩, limits⟩
  obtain ⟨_, refuses, _⟩ := normalization_well_defined sets rfl ⟨"beh", ⟨0, 0, 0, 0⟩, turned⟩
  refine ⟨rfl, accepted, nonzero, (divided accepted .minLeft nonzero).2.2.2.2, ?_, ?_⟩
  · exact (fails _).mpr (.inr ⟨accepted, rfl, .inl ⟨_, wide, by decide⟩⟩)
  · refine (refuses _).mpr ⟨[], .minLeft, _, rfl, fun other none => (List.not_mem_nil none).elim, .inl ?_, rfl⟩
    decide +kernel

end DeltaSets

end Kashida
