import Kashida.Proofs.Variation.Growth
import Mathlib.Data.List.Induction
import Mathlib.Data.List.Nodup
import Mathlib.Data.List.Perm.Basic

/-! Delta sets are shared exactly. The index of a list of columns is remembered from the first request for it on, so
that requests get the same index if they ask for the same columns, and only then. -/
namespace Kashida

namespace Column

/-- Each column is at most those behind it. -/
def Ascending (columns : List Column) : Prop := columns.Pairwise fun a b => (compare a b).isLE

theorem ascending_insert (column : Column) {columns : List Column} (ascending : Ascending columns) :
    Ascending (insert column columns) := by
  induction columns with
  | nil => exact List.pairwise_singleton _ column
  | cons other rest ih =>
    obtain ⟨least, restAscending⟩ := List.pairwise_cons.mp ascending
    unfold insert
    split
    · rename_i less
      refine List.pairwise_cons.mpr ⟨fun later member => ?_, ih restAscending⟩
      rcases List.mem_cons.mp ((insert_perm column rest).mem_iff.mp member) with rfl | old
      · exact Ordering.isLE_of_eq_lt (Ordering.isLT_iff_eq_lt.mp less)
      · exact least later old
    · rename_i notLess
      have first : (compare column other).isLE := by
        apply Std.OrientedCmp.isGE_iff_isLE.mp
        apply Ordering.isGE_iff_ne_lt.mpr
        exact fun less => notLess (Ordering.isLT_iff_eq_lt.mpr less)
      refine List.pairwise_cons.mpr ⟨fun later member => ?_, ascending⟩
      rcases List.mem_cons.mp member with rfl | old
      · exact first
      · exact Std.TransCmp.isLE_trans first (least later old)

theorem ascending_sort (columns : List Column) : Ascending (sort columns) := by
  induction columns with
  | nil => exact List.Pairwise.nil
  | cons column columns ih => exact ascending_insert column ih

/-- Sorting forgets the order and nothing else. -/
theorem sort_eq_sort_iff {columns others : List Column} : sort columns = sort others ↔ columns.Perm others := by
  constructor
  · intro same
    exact (sort_perm columns).symm.trans (same ▸ sort_perm others)
  · intro perm
    apply List.Perm.eq_of_pairwise ?_ (ascending_sort columns) (ascending_sort others)
    · exact (sort_perm columns).trans (perm.trans (sort_perm others).symm)
    · intro a b _ _ le ge
      exact Std.LawfulEqOrd.eq_of_compare (Std.OrientedCmp.isLE_antisymm le ge)

end Column

namespace DeltaSets

/-- Whether limits are accepted does not depend on whose they are. -/
theorem validate_eq_ok_iff {sets : DeltaSets} {glyph : String} {limits : ElongationLimits} :
    sets.validate glyph limits = .ok () ↔ ∀ field ∈ LimitField.all, offends sets.uniform limits field = false := by
  unfold validate
  constructor
  · intro accepted
    split at accepted
    · rename_i none
      intro field member
      simpa using List.find?_eq_none.mp none field member
    · cases accepted
  · intro accepted
    have none : LimitField.all.find? (offends sets.uniform limits) = none := by
      apply List.find?_eq_none.mpr
      intro field member
      rw [accepted field member]
      exact Bool.false_ne_true
    rw [none]

/-- A limit before it is rounded to a peak. -/
def fraction (sets : DeltaSets) (limits : ElongationLimits) (field : LimitField) : Rounded :=
  if sets.normalized then normalize (limits.get field) ((sets.uniform.getD limits).get field)
  else .finite (limits.get field)

/-- There is a peak if the fraction has one. Limits that are taken as they are must also be within one. -/
theorem peak_eq_ok_iff {sets : DeltaSets} {limits : ElongationLimits} {field : LimitField} {result : F2Dot14} :
    sets.peak glyph limits field = .ok result ↔ F2Dot14.ofRounded (sets.fraction limits field) = .ok result ∧
      (sets.normalized = false → ¬Binary64.one < limits.get field ∧ ¬limits.get field < .negOne) := by
  unfold peak fraction
  cases sets.normalized with
  | true => simp [write_eq_ok_iff]
  | false =>
    by_cases above : Binary64.one < limits.get field
    · simp [above, throw, throwThe, MonadExceptOf.throw]
    · by_cases below : limits.get field < .negOne
      · simp [above, below, throw, throwThe, MonadExceptOf.throw]
      · simp [above, below, write_eq_ok_iff]

/-- Whose limit it is only shows in an error. -/
theorem peak_eq_ok_of {sets : DeltaSets} {limits : ElongationLimits} {field : LimitField} {result : F2Dot14}
    (isPeak : sets.peak glyph limits field = .ok result) (other : String) :
    sets.peak other limits field = .ok result :=
  peak_eq_ok_iff.mpr (peak_eq_ok_iff.mp isPeak)

theorem registerRegion_known {sets : DeltaSets} (valid : sets.Valid) {number : UInt16}
    (known : sets.regions[number.toNat]? = some region) : sets.registerRegion region = (.ok number, sets) := by
  obtain ⟨bound, isRegion⟩ := List.getElem?_eq_some_iff.mp known
  have found : sets.regions.idxOf? region = some number.toNat := by
    rw [List.idxOf?_eq_some_iff]
    refine ⟨bound, isRegion, fun earlier before same => ?_⟩
    have equal := (List.Nodup.getElem_inj_iff valid.distinct).mp (same.trans isRegion.symm)
    omega
  unfold registerRegion
  rw [found]
  simp

/-- Columns that are there already are found again, and nothing is registered. -/
theorem columns_again {sets : DeltaSets} (valid : sets.Valid) {limits : ElongationLimits}
    {ends : List (LimitField × Int)} {columns : List Column} (carried : List.Forall₂ (sets.Carries glyph limits)
      (ends.filter fun axisEnd => !(limits.get axisEnd.1).isZero) columns) (other : String) :
    sets.columns other limits ends = (.ok columns, sets) := by
  induction ends generalizing columns with
  | nil =>
    cases carried
    rfl
  | cons axisEnd ends ih =>
    unfold DeltaSets.columns
    by_cases zero : (limits.get axisEnd.1).isZero
    · rw [List.filter_cons, if_neg (by simp [zero])] at carried
      rw [if_pos zero]
      exact ih carried
    · rw [List.filter_cons, if_pos (by simp [zero])] at carried
      rw [if_neg zero]
      cases carried with
      | @cons _ column _ columns here rest =>
        obtain ⟨peak, isPeak, atRegion, isDelta⟩ := here
        have narrow : coordinate16 axisEnd.2 = .ok column.delta := by
          rw [coordinate16_eq_ok_iff, ← isDelta]
          exact ⟨⟨column.delta.le_toInt, column.delta.toInt_le⟩, rfl⟩
        rw [peak_eq_ok_of isPeak other]
        simp only [registerRegion_known valid atRegion, narrow, ih rest]

/-- The sorted columns of a request, with its regions as they are numbered here. -/
def sortedColumns (sets : DeltaSets) (request : Request) : Except CompileError (List Column) :=
  (sets.columns request.glyph request.limits request.deltas.ends).1.map Column.sort

def answer (sets : DeltaSets) (request : Request) : Except CompileError DeltaSetIndex :=
  (sets.allocate request.glyph request.deltas request.limits).1

/-- Regions of limits that can be reached are added, and nothing else is changed. -/
structure Registers (glyph : String) (limits : ElongationLimits) (before after : DeltaSets) : Prop where
  peak : ∀ field, after.peak glyph limits field = before.peak glyph limits field
  indexes : after.indexes = before.indexes
  groups : after.groups = before.groups
  regions : ∀ region ∈ after.regions, region ∈ before.regions ∨ ∃ field result,
    (limits.get field).isZero = false ∧ before.peak glyph limits field = .ok result ∧ region = ⟨field.axis, result⟩

theorem Registers.refl (glyph : String) (limits : ElongationLimits) (sets : DeltaSets) :
    Registers glyph limits sets sets :=
  ⟨fun _ => rfl, rfl, rfl, fun _ => .inl⟩

theorem Registers.trans (early : Registers glyph limits first second) (late : Registers glyph limits second third) :
    Registers glyph limits first third := by
  refine ⟨fun field => (late.peak field).trans (early.peak field), late.indexes.trans early.indexes,
    late.groups.trans early.groups, fun region member => ?_⟩
  rcases late.regions region member with old | ⟨field, result, moves, isPeak, isRegion⟩
  · exact early.regions region old
  · exact .inr ⟨field, result, moves, early.peak field ▸ isPeak, isRegion⟩

theorem registerRegion_registers {sets : DeltaSets} (moves : ¬(limits.get field).isZero = true)
    (isPeak : sets.peak glyph limits field = .ok result)
    (step : sets.registerRegion ⟨field.axis, result⟩ = (outcome, next)) : Registers glyph limits sets next := by
  unfold registerRegion at step
  split at step
  · cases step
    exact .refl glyph limits _
  · split at step
    · cases step
      refine ⟨fun _ => rfl, rfl, rfl, fun region member => ?_⟩
      rcases List.mem_append.mp member with old | new
      · exact .inl old
      · exact .inr ⟨field, result, Bool.eq_false_iff.mpr moves, isPeak, List.mem_singleton.mp new⟩
    · cases step
      exact .refl glyph limits _

theorem columns_registers {sets : DeltaSets} {ends : List (LimitField × Int)}
    (registered : sets.columns glyph limits ends = (outcome, after)) : Registers glyph limits sets after := by
  obtain rfl : (sets.columns glyph limits ends).2 = after := by rw [registered]
  clear registered
  fun_induction columns sets glyph limits ends with
  | case1 sets => exact .refl glyph limits sets
  | case2 sets field delta ends zero ih => exact ih
  | case3 sets field delta ends moves error noPeak => exact .refl glyph limits sets
  | case4 sets field delta ends moves peak isPeak error next step => exact registerRegion_registers moves isPeak step
  | case5 sets field delta ends moves peak isPeak region next step error wide =>
    exact registerRegion_registers moves isPeak step
  | case6 sets field delta ends moves peak isPeak region next step narrow fits columns final rest ih =>
    rw [rest] at ih
    exact (registerRegion_registers moves isPeak step).trans ih
  | case7 sets field delta ends moves peak isPeak region next step narrow fits error final rest ih =>
    rw [rest] at ih
    exact (registerRegion_registers moves isPeak step).trans ih

theorem openGroup_frame (sets : DeltaSets) (regions : List UInt16) :
    (sets.openGroup regions).2.indexes = sets.indexes ∧ (sets.openGroup regions).2.regions = sets.regions ∧
      ∀ group ∈ (sets.openGroup regions).2.groups, group ∈ sets.groups ∨ group.regions = regions := by
  unfold openGroup
  split
  · exact ⟨rfl, rfl, fun _ => .inl⟩
  · refine ⟨rfl, rfl, fun group member => ?_⟩
    rcases Array.mem_push.mp member with old | rfl
    · exact .inl old
    · exact .inr rfl

/-- A row is pushed to a group that is there or to a new one with its regions, and nothing else is changed. -/
theorem pushRow_frame {sets : DeltaSets} {columns : List Column} (pushed : sets.pushRow columns = (outcome, after)) :
    after.indexes = sets.indexes ∧ after.regions = sets.regions ∧ ∀ group ∈ after.groups,
      (∃ old ∈ sets.groups, old.regions = group.regions) ∨ group.regions = columns.map Column.region := by
  obtain rfl : (sets.pushRow columns).2 = after := by rw [pushed]
  clear pushed
  obtain ⟨indexes, regions, groups⟩ := openGroup_frame sets (columns.map Column.region)
  unfold pushRow
  generalize sets.openGroup (columns.map Column.region) = opened at indexes regions groups
  refine ⟨indexes, regions, fun group member => ?_⟩
  obtain ⟨place, atPlace⟩ := Array.mem_iff_getElem?.mp member
  rw [Array.getElem?_modify] at atPlace
  -- The group that takes the row keeps its regions.
  have kept : ∃ old ∈ opened.2.groups, old.regions = group.regions := by
    split at atPlace
    · obtain ⟨old, found, rfl⟩ := Option.map_eq_some_iff.mp atPlace
      exact ⟨old, Array.mem_of_getElem? found, rfl⟩
    · exact ⟨group, Array.mem_of_getElem? atPlace, rfl⟩
  obtain ⟨old, there, same⟩ := kept
  rcases groups old there with before | new
  · exact .inl ⟨old, before, same⟩
  · exact .inr (same.symm.trans new)

/-- All that can become of a request, with the answer to it and the delta sets behind it. -/
inductive Serving (sets : DeltaSets) (request : Request) : Except CompileError DeltaSetIndex → DeltaSets → Prop where
  | refused {error : BoundsError} (offending : sets.validate request.glyph request.limits = .error error) :
      Serving sets request (.error (.axisBounds error)) sets
  | failed {error : CompileError} {middle : DeltaSets} (accepted : sets.validate request.glyph request.limits = .ok ())
      (registered : sets.columns request.glyph request.limits request.deltas.ends = (.error error, middle)) :
      Serving sets request (.error error) middle
  | found {columns : List Column} {middle : DeltaSets} {index : DeltaSetIndex}
      (accepted : sets.validate request.glyph request.limits = .ok ())
      (registered : sets.columns request.glyph request.limits request.deltas.ends = (.ok columns, middle))
      (known : middle.indexes[Column.sort columns]? = some index) : Serving sets request (.ok index) middle
  | unnumbered {columns : List Column} {middle last : DeltaSets} {error : WriteError}
      (accepted : sets.validate request.glyph request.limits = .ok ())
      (registered : sets.columns request.glyph request.limits request.deltas.ends = (.ok columns, middle))
      (new : middle.indexes[Column.sort columns]? = none)
      (pushed : middle.pushRow (Column.sort columns) = (.error error, last)) :
      Serving sets request (.error (.write error)) last
  | added {columns : List Column} {middle last : DeltaSets} {index : DeltaSetIndex}
      (accepted : sets.validate request.glyph request.limits = .ok ())
      (registered : sets.columns request.glyph request.limits request.deltas.ends = (.ok columns, middle))
      (new : middle.indexes[Column.sort columns]? = none)
      (pushed : middle.pushRow (Column.sort columns) = (.ok index, last)) :
      Serving sets request (.ok index) { last with indexes := last.indexes.insert (Column.sort columns) index }

theorem serving (sets : DeltaSets) (request : Request) :
    Serving sets request (sets.answer request) (sets.serve request) := by
  unfold answer serve allocate
  cases accepted : sets.validate request.glyph request.limits with
  | error error => exact .refused accepted
  | ok =>
    cases registered : sets.columns request.glyph request.limits request.deltas.ends with
    | mk outcome middle =>
      cases outcome with
      | error error => exact .failed accepted registered
      | ok columns =>
        dsimp only
        cases known : middle.indexes[Column.sort columns]? with
        | some index => exact .found accepted registered known
        | none =>
          cases pushed : middle.pushRow (Column.sort columns) with
          | mk outcome last =>
            cases outcome with
            | error error => exact .unnumbered accepted registered known pushed
            | ok index => exact .added accepted registered known pushed

namespace Serving

variable {sets : DeltaSets} {request : Request}

theorem inoffensive (serving : Serving sets request (.ok index) after) :
    ∀ field ∈ LimitField.all, offends sets.uniform request.limits field = false := by
  cases serving with
  | found accepted => exact validate_eq_ok_iff.mp accepted
  | added accepted => exact validate_eq_ok_iff.mp accepted

theorem exists_columns (serving : Serving sets request (.ok index) after) :
    ∃ columns, sets.sortedColumns request = .ok columns := by
  unfold sortedColumns
  cases serving with
  | found _ registered => exact ⟨_, by rw [registered]; rfl⟩
  | added _ registered => exact ⟨_, by rw [registered]; rfl⟩

/-- The index of the columns is remembered if the request is met, and all others are as before. -/
theorem indexes {answer : Except CompileError DeltaSetIndex} (serving : Serving sets request answer after)
    (columns : List Column) (index : DeltaSetIndex) : after.indexes[columns]? = some index ↔
      sets.indexes[columns]? = some index ∨ sets.sortedColumns request = .ok columns ∧ answer = .ok index := by
  unfold sortedColumns
  cases serving with
  | refused => simp
  | failed _ registered => simp [← (columns_registers registered).indexes]
  | found _ registered known =>
    rw [registered, ← (columns_registers registered).indexes]
    simp only [Except.map, Except.ok.injEq]
    constructor
    · exact .inl
    · rintro (old | ⟨rfl, rfl⟩)
      · exact old
      · exact known
  | unnumbered _ registered _ pushed => simp [(pushRow_frame pushed).1, (columns_registers registered).indexes]
  | @added found _ _ _ _ registered new pushed =>
    rw [registered, ← (columns_registers registered).indexes]
    simp only [Except.map, Except.ok.injEq, (pushRow_frame pushed).1, Std.TreeMap.getElem?_insert,
      Std.LawfulEqOrd.compare_eq_iff_eq]
    by_cases isFound : Column.sort found = columns
    · rw [if_pos isFound, ← isFound, new]
      simp
    · rw [if_neg isFound]
      simp [isFound]

end Serving

/-- A request of a run that was met, with its sorted columns and the index that it got. -/
def Granted (start : DeltaSets) (run : List Request) (request : Request) (columns : List Column)
    (index : DeltaSetIndex) : Prop :=
  ∃ earlier later, run = earlier ++ request :: later ∧
    (start.serveAll earlier).sortedColumns request = .ok columns ∧ (start.serveAll earlier).answer request = .ok index

theorem granted_concat_iff {start : DeltaSets} {run : List Request} {last : Request} {columns : List Column} :
    start.Granted (run ++ [last]) request columns index ↔ start.Granted run request columns index ∨
      request = last ∧ (start.serveAll run).sortedColumns request = .ok columns ∧
        (start.serveAll run).answer request = .ok index := by
  constructor
  · rintro ⟨earlier, later, split, sorted, answered⟩
    cases later using List.reverseRecOn with
    | nil =>
      obtain ⟨rfl, same⟩ := List.append_inj' split rfl
      exact .inr ⟨(List.singleton_inj.mp same).symm, sorted, answered⟩
    | append_singleton later final =>
      rw [← List.cons_append, ← List.append_assoc] at split
      exact .inl ⟨earlier, later, (List.append_inj' split rfl).1, sorted, answered⟩
  · rintro (⟨earlier, later, rfl, sorted, answered⟩ | ⟨rfl, sorted, answered⟩)
    · exact ⟨earlier, later ++ [last], by rw [List.append_assoc, List.cons_append], sorted, answered⟩
    · exact ⟨run, [], rfl, sorted, answered⟩

/-- What is remembered after a run are the columns of the requests that were met, with the indexes that these got. -/
theorem indexes_serveAll {start : DeltaSets} (fresh : start.indexes = ∅) (run : List Request) (columns : List Column)
    (index : DeltaSetIndex) : (start.serveAll run).indexes[columns]? = some index ↔
      ∃ request, start.Granted run request columns index := by
  induction run using List.reverseRecOn with
  | nil =>
    have none : ∀ request, ¬start.Granted [] request columns index := by
      rintro request ⟨earlier, later, split, _⟩
      cases List.append_eq_nil_iff.mp split.symm with
      | intro _ empty => cases empty
    simp [serveAll, fresh, none]
  | append_singleton run last ih =>
    have step : start.serveAll (run ++ [last]) = (start.serveAll run).serve last := serveAll_append start run [last]
    rw [step, ((start.serveAll run).serving last).indexes, ih]
    simp only [granted_concat_iff, exists_or, exists_eq_left]

theorem allocate_eq (sets : DeltaSets) (request : Request) :
    sets.allocate request.glyph request.deltas request.limits = (sets.answer request, sets.serve request) := rfl

/-- The region of an end with the change there. -/
def move (sets : DeltaSets) (request : Request) (axisEnd : LimitField × Int) : Except CompileError (Region × Int) := do
  return (⟨axisEnd.1.axis, ← sets.peak request.glyph request.limits axisEnd.1⟩, axisEnd.2)

/-- The regions that a request asks for, each with the change there. -/
def moves (sets : DeltaSets) (request : Request) : Except CompileError (List (Region × Int)) :=
  (request.deltas.moving request.limits).mapM (sets.move request)

/-- A column that stands for a change in a region: it has the number of the region. -/
def Numbers (sets : DeltaSets) (move : Region × Int) (column : Column) : Prop :=
  sets.regions[column.region.toNat]? = some move.1 ∧ column.delta.toInt = move.2

theorem numbers_biUnique {sets : DeltaSets} (valid : sets.Valid) : Relator.BiUnique sets.Numbers := by
  constructor
  · rintro ⟨region, delta⟩ column ⟨other, otherDelta⟩ ⟨known, isDelta⟩ ⟨otherKnown, isOther⟩
    cases known.symm.trans otherKnown
    cases isDelta.symm.trans isOther
    rfl
  · rintro move ⟨number, delta⟩ ⟨other, otherDelta⟩ ⟨known, isDelta⟩ ⟨otherKnown, isOther⟩
    obtain ⟨bound, isRegion⟩ := List.getElem?_eq_some_iff.mp known
    obtain ⟨otherBound, isSame⟩ := List.getElem?_eq_some_iff.mp otherKnown
    -- No region has two numbers.
    have sameNumber := (List.Nodup.getElem_inj_iff valid.distinct).mp (isRegion.trans isSame.symm)
    rw [Column.mk.injEq]
    exact ⟨UInt16.toNat_inj.mp sameNumber, Int16.toInt_inj.mp (isDelta.trans isOther.symm)⟩

theorem exists_moves {start sets : DeltaSets} (grown : start.Extends sets) {ends : List (LimitField × Int)}
    {columns : List Column} (carried : List.Forall₂ (sets.Carries request.glyph request.limits) ends columns) :
    ∃ moves, ends.mapM (start.move request) = .ok moves ∧ List.Forall₂ sets.Numbers moves columns := by
  induction carried with
  | nil => exact ⟨[], rfl, .nil⟩
  | @cons axisEnd column ends columns here _ ih =>
    obtain ⟨peak, isPeak, atRegion, isDelta⟩ := here
    obtain ⟨moves, isMoves, numbers⟩ := ih
    rw [grown.peak] at isPeak
    have moved : start.move request axisEnd = .ok (⟨axisEnd.1.axis, peak⟩, axisEnd.2) :=
      bind_eq_ok_iff.mpr ⟨peak, isPeak, rfl⟩
    exact ⟨_ :: moves, mapM_eq_ok_iff.mpr (.cons moved (mapM_eq_ok_iff.mp isMoves)),
      .cons ⟨atRegion, isDelta⟩ numbers⟩

section

variable {normalized : Bool} {uniform : Option ElongationLimits} {run : List Request} {request : Request}
  {columns : List Column} {index : DeltaSetIndex}

theorem valid_serveAll (normalized : Bool) (uniform : Option ElongationLimits) (run : List Request) :
    (serveAll { normalized, uniform } run).Valid := (serveAll_grows (.initial normalized uniform) run).1

namespace Granted

theorem remembered (granted : Granted { normalized, uniform } run request columns index) :
    (serveAll { normalized, uniform } run).indexes[columns]? = some index :=
  (indexes_serveAll rfl run columns index).mpr ⟨request, granted⟩

/-- The columns of a request that was met, as they are after the run. -/
theorem carried (granted : Granted { normalized, uniform } run request columns index) :
    (∀ field ∈ LimitField.all,
      offends (serveAll { normalized, uniform } run).uniform request.limits field = false) ∧ ∃ carrying,
      columns = Column.sort carrying ∧ List.Forall₂
        ((serveAll { normalized, uniform } run).Carries request.glyph request.limits)
        (request.deltas.moving request.limits) carrying := by
  have valid := valid_serveAll normalized uniform run
  have remembered := granted.remembered
  obtain ⟨earlier, later, split, sorted, answered⟩ := granted
  have whole : serveAll { normalized, uniform } run =
      ((serveAll { normalized, uniform } earlier).serve request).serveAll later := by
    rw [split, serveAll_append]
    rfl
  obtain ⟨validNext, grown, holds⟩ := allocate_grows (valid_serveAll normalized uniform earlier)
    (allocate_eq (serveAll { normalized, uniform } earlier) request)
  obtain ⟨row, carrying, recorded, perm, carried⟩ := (holds index answered).mono (serveAll_grows validNext later).2
  rw [← whole] at recorded carried
  constructor
  · have serving := serving (serveAll { normalized, uniform } earlier) request
    rw [answered] at serving
    rw [(serveAll_grows (.initial normalized uniform) run).2.uniform,
      ← (serveAll_grows (.initial normalized uniform) earlier).2.uniform]
    exact serving.inoffensive
  · -- The row at the index is that of these columns and no other.
    cases (valid.indexed row index recorded).symm.trans (valid.indexed columns index remembered)
    obtain ⟨raw, _, rfl⟩ := map_eq_ok_iff.mp sorted
    refine ⟨carrying, ?_, carried⟩
    apply Column.sort_eq_sort_iff.mpr
    exact (Column.sort_perm raw).symm.trans perm

/-- A request that was met once is met again, for whatever glyph, and finds all as it is. -/
theorem again (granted : Granted { normalized, uniform } run request columns index) (glyph : String) :
    (serveAll { normalized, uniform } run).allocate glyph request.deltas request.limits =
      (.ok index, serveAll { normalized, uniform } run) := by
  obtain ⟨inoffensive, carrying, isSorted, carried⟩ := granted.carried
  have accepted : (serveAll { normalized, uniform } run).validate glyph request.limits = .ok () :=
    validate_eq_ok_iff.mpr inoffensive
  have found := columns_again (valid_serveAll normalized uniform run) carried glyph
  unfold allocate
  rw [accepted]
  simp only [found, ← isSorted, granted.remembered]

/-- The row at an index has the columns of the requests that got it, and columns are remembered with one index. -/
theorem index_eq_iff (granted : Granted { normalized, uniform } run request columns index)
    (otherGranted : Granted { normalized, uniform } run other otherColumns otherIndex) :
    index = otherIndex ↔ columns = otherColumns := by
  have valid := valid_serveAll normalized uniform run
  constructor
  · rintro rfl
    apply Option.some_inj.mp
    exact (valid.indexed _ _ granted.remembered).symm.trans (valid.indexed _ _ otherGranted.remembered)
  · rintro rfl
    apply Option.some_inj.mp
    exact granted.remembered.symm.trans otherGranted.remembered

/-- What a request that was met moves, with its columns. -/
theorem moved (granted : Granted { normalized, uniform } run request columns index) :
    ∃ moves carrying, DeltaSets.moves { normalized, uniform } request = .ok moves ∧ columns = Column.sort carrying ∧
      List.Forall₂ (serveAll { normalized, uniform } run).Numbers moves carrying := by
  obtain ⟨_, carrying, isSorted, carried⟩ := granted.carried
  have grown := (serveAll_grows (.initial normalized uniform) run).2
  obtain ⟨moves, isMoves, numbers⟩ := exists_moves grown carried
  exact ⟨moves, carrying, isMoves, isSorted, numbers⟩

end Granted

end

/-- Two requests that were met got the same index if they have the same columns, that is, if they move the same regions
equally far, and only then. A request that was met once is met again with the same index, for whatever glyph, and
changes nothing. There are as many delta sets as different columns of requests that were met. -/
theorem delta_sets_shared_exactly (normalized : Bool) (uniform : Option ElongationLimits) (run : List Request) :
    let start : DeltaSets := { normalized, uniform }
    let sets := start.serveAll run
    (∀ earlier request later index, run = earlier ++ request :: later →
      (start.serveAll earlier).answer request = .ok index → ∃ columns, start.Granted run request columns index) ∧
    (∀ request columns index other otherColumns otherIndex, start.Granted run request columns index →
      start.Granted run other otherColumns otherIndex →
        (index = otherIndex ↔ columns = otherColumns) ∧
        ∃ moves others, start.moves request = .ok moves ∧ start.moves other = .ok others ∧
          (index = otherIndex ↔ moves.Perm others)) ∧
    (∀ request columns index, start.Granted run request columns index →
      ∀ glyph, sets.allocate glyph request.deltas request.limits = (.ok index, sets)) ∧
    ∃ rows : List (List Column), rows.Nodup ∧ rows.length = sets.size ∧
      ∀ columns, columns ∈ rows ↔ ∃ request index, start.Granted run request columns index := by
  intro start sets
  have valid : sets.Valid := valid_serveAll normalized uniform run
  refine ⟨?_, ?_, fun _ _ _ granted glyph => granted.again glyph, ?_⟩
  · intro earlier request later index split answered
    have serving := serving (start.serveAll earlier) request
    rw [answered] at serving
    obtain ⟨columns, sorted⟩ := serving.exists_columns
    exact ⟨columns, earlier, later, split, sorted, answered⟩
  · intro request columns index other otherColumns otherIndex granted otherGranted
    have sameIndex := granted.index_eq_iff otherGranted
    obtain ⟨moves, carrying, isMoves, isSorted, numbers⟩ := granted.moved
    obtain ⟨others, otherCarrying, isOthers, otherSorted, otherNumbers⟩ := otherGranted.moved
    refine ⟨sameIndex, moves, others, isMoves, isOthers, ?_⟩
    rw [sameIndex, isSorted, otherSorted, Column.sort_eq_sort_iff]
    exact (List.rel_perm (numbers_biUnique valid) numbers otherNumbers).symm
  · have fresh : start.indexes = ∅ := rfl
    refine ⟨sets.indexes.keys, Std.TreeMap.nodup_keys, Std.TreeMap.length_keys, fun columns => ?_⟩
    rw [Std.TreeMap.mem_keys, Std.TreeMap.mem_iff_isSome_getElem?, Option.isSome_iff_exists]
    simp only [sets, indexes_serveAll fresh]
    exact exists_comm

/-- The second request is refused, but has registered its region by then. The third asks for what the first got, for
another glyph, and the last moves the same region twice as far. -/
theorem delta_sets_shared_exactly_after_refusal :
    let limits : ElongationLimits := ⟨.negOne, .one, .zero, .zero⟩
    let first : Request := ⟨"beh", ⟨10, -5, 0, 0⟩, limits⟩
    let refused : Request := ⟨"teh", ⟨0, 0, 40000, 0⟩, ⟨.zero, .zero, .zero, .one⟩⟩
    let again : Request := ⟨"teh", ⟨10, -5, 3, 0⟩, limits⟩
    let other : Request := ⟨"beh", ⟨20, -5, 0, 0⟩, limits⟩
    let start : DeltaSets := { normalized := false, uniform := none }
    let sets := start.serveAll [first, refused, again, other]
    (∃ columns otherColumns index otherIndex, start.Granted [first, refused, again, other] again columns index ∧
      start.Granted [first, refused, again, other] other otherColumns otherIndex ∧ columns ≠ otherColumns ∧
      index ≠ otherIndex ∧ sets.allocate "lam" first.deltas limits = (.ok index, sets)) ∧
    ∃ rows : List (List Column), rows.Nodup ∧ rows.length = 2 ∧
      ∀ columns, columns ∈ rows ↔
        ∃ request index, start.Granted [first, refused, again, other] request columns index := by
  intro limits first refused again other start sets
  obtain ⟨granted, shared, repeated, rows, distinct, counted, isRow⟩ :=
    delta_sets_shared_exactly false none [first, refused, again, other]
  obtain ⟨columns, isFirst⟩ := granted [] first [refused, again, other] ⟨0, 0⟩ rfl (by decide +kernel)
  obtain ⟨sameColumns, isAgain⟩ := granted [first, refused] again [other] ⟨0, 0⟩ rfl (by decide +kernel)
  obtain ⟨otherColumns, isOther⟩ := granted [first, refused, again] other [] ⟨0, 1⟩ rfl (by decide +kernel)
  have apart : (⟨0, 0⟩ : DeltaSetIndex) ≠ ⟨0, 1⟩ := by decide
  have columnsApart := fun same => apart ((shared _ _ _ _ _ _ isAgain isOther).1.mpr same)
  refine ⟨⟨sameColumns, otherColumns, ⟨0, 0⟩, ⟨0, 1⟩, isAgain, isOther, columnsApart, apart,
    repeated _ _ _ isFirst "lam"⟩, rows, distinct, ?_, isRow⟩
  rw [counted]
  decide +kernel

end DeltaSets

end Kashida
