import Kashida.Proofs.Bytes.Placement
import Kashida.Proofs.Fallible
import Kashida.Variation.DeltaSets

/-! Delta sets only grow. A request registers regions behind those that are there and appends at most one row to one
group, also when it fails, so that every index that was handed out keeps its columns for good. -/
namespace Kashida

namespace Column

theorem insert_perm (column : Column) (columns : List Column) : (insert column columns).Perm (column :: columns) := by
  induction columns with
  | nil => exact .refl _
  | cons other rest ih =>
    simp only [insert]
    split
    · exact (ih.cons other).trans (.swap column other rest)
    · exact .refl _

theorem sort_perm (columns : List Column) : (sort columns).Perm columns := by
  induction columns with
  | nil => exact .refl _
  | cons column rest ih => exact (insert_perm column (sort rest)).trans (ih.cons column)

instance : Std.LawfulEqOrd Column where
  eq_of_compare {a b} same := by
    have both : compareLex (compareOn Column.region) (compareOn Column.delta) a b = .eq := same
    simp only [compareLex_eq_eq, compareOn, Std.LawfulEqOrd.compare_eq_iff_eq] at both
    cases a
    cases b
    simp_all

end Column

/-- The ends of the axes that an elongation can reach. -/
def EndDeltas.moving (deltas : EndDeltas) (limits : ElongationLimits) : List (LimitField × Int) :=
  deltas.ends.filter fun (field, _) => !(limits.get field).isZero

/-- Regions that exist, a row for each number below the count, and a delta for each region of a row. -/
structure DeltaGroup.Fits (regionCount : Nat) (group : DeltaGroup) : Prop where
  narrow : group.regions.length ≤ 4
  known : ∀ region ∈ group.regions, region.toNat < regionCount
  counted : group.rows.size ≤ DeltaSets.maxRows
  aligned : ∀ row ∈ group.rows, row.length = group.regions.length

theorem DeltaGroup.Fits.mono {group : DeltaGroup} (fits : group.Fits count) (more : count ≤ larger) :
    group.Fits larger :=
  ⟨fits.narrow, fun region member => Nat.lt_of_lt_of_le (fits.known region member) more, fits.counted, fits.aligned⟩

namespace DeltaSets

/-- The columns of the row at an index: each delta beside the number of its region. -/
def row? (sets : DeltaSets) (index : DeltaSetIndex) : Option (List Column) :=
  sets.groups[index.outer.toNat]?.bind fun group =>
    group.rows[index.inner.toNat]?.map fun row => List.zipWith Column.mk group.regions row

/-- What every run of requests keeps. -/
structure Valid (sets : DeltaSets) : Prop where
  distinct : sets.regions.Nodup
  numbered : sets.regions.length ≤ 65536
  fits : ∀ group ∈ sets.groups, group.Fits sets.regions.length
  indexed : ∀ columns index, sets.indexes[columns]? = some index → sets.row? index = some columns

/-- Regions keep their numbers, and rows their places. -/
structure Extends (before after : DeltaSets) : Prop where
  normalized : after.normalized = before.normalized
  uniform : after.uniform = before.uniform
  regions : before.regions <+: after.regions
  groups : ∀ (outer : Nat) (group : DeltaGroup), before.groups[outer]? = some group →
    ∃ grown, after.groups[outer]? = some grown ∧ grown.regions = group.regions ∧
      group.rows.toList <+: grown.rows.toList
  indexes : ∀ (columns : List Column) (index : DeltaSetIndex),
    before.indexes[columns]? = some index → after.indexes[columns]? = some index

namespace Extends

theorem refl (sets : DeltaSets) : sets.Extends sets :=
  ⟨rfl, rfl, List.prefix_refl _, fun _ group found => ⟨group, found, rfl, List.prefix_refl _⟩, fun _ _ found => found⟩

theorem trans {first second third : DeltaSets} (early : first.Extends second) (late : second.Extends third) :
    first.Extends third := by
  refine ⟨late.normalized.trans early.normalized, late.uniform.trans early.uniform,
    early.regions.trans late.regions, ?_, fun columns index found => late.indexes _ _ (early.indexes _ _ found)⟩
  intro outer group found
  obtain ⟨grown, there, same, rows⟩ := early.groups outer group found
  obtain ⟨final, kept, sameAgain, more⟩ := late.groups outer grown there
  exact ⟨final, kept, sameAgain.trans same, rows.trans more⟩

theorem region {before after : DeltaSets} (grown : before.Extends after) {number : Nat} {region : Region}
    (found : before.regions[number]? = some region) : after.regions[number]? = some region := by
  obtain ⟨suffix, same⟩ := grown.regions
  have bound := (List.getElem?_eq_some_iff.mp found).1
  rw [← same, List.getElem?_append_left bound]
  exact found

theorem row? {before after : DeltaSets} (grown : before.Extends after) {index : DeltaSetIndex}
    {columns : List Column} (found : before.row? index = some columns) : after.row? index = some columns := by
  simp only [DeltaSets.row?, Option.bind_eq_some_iff, Option.map_eq_some_iff] at found ⊢
  obtain ⟨group, atOuter, row, atInner, same⟩ := found
  obtain ⟨later, kept, sameRegions, suffix, rows⟩ := grown.groups _ _ atOuter
  refine ⟨later, kept, row, ?_, by rw [sameRegions, same]⟩
  have bound := (Array.getElem?_eq_some_iff.mp atInner).1
  rw [← Array.getElem?_toList] at atInner ⊢
  rw [← rows, List.getElem?_append_left (by simpa using bound)]
  exact atInner

theorem peak {before after : DeltaSets} (grown : before.Extends after) (glyph : String) (limits : ElongationLimits)
    (field : LimitField) : after.peak glyph limits field = before.peak glyph limits field := by
  simp only [DeltaSets.peak, grown.normalized, grown.uniform]

end Extends

/-- A column for one end: its region is that of the limit, and its delta the change there. -/
def Carries (sets : DeltaSets) (glyph : String) (limits : ElongationLimits) (axisEnd : LimitField × Int)
    (column : Column) : Prop :=
  ∃ peak, sets.peak glyph limits axisEnd.1 = .ok peak ∧
    sets.regions[column.region.toNat]? = some ⟨axisEnd.1.axis, peak⟩ ∧ column.delta.toInt = axisEnd.2

theorem Carries.mono {before after : DeltaSets} {axisEnd : LimitField × Int} {column : Column}
    (carried : before.Carries glyph limits axisEnd column) (grown : before.Extends after) :
    after.Carries glyph limits axisEnd column := by
  obtain ⟨peak, isPeak, atRegion, delta⟩ := carried
  exact ⟨peak, by rw [grown.peak, isPeak], grown.region atRegion, delta⟩

theorem Valid.initial (normalized : Bool) (uniform : Option ElongationLimits) :
    Valid { normalized, uniform } := by
  refine ⟨List.nodup_nil, Nat.zero_le _, ?_, ?_⟩
  · intro group member
    cases Array.not_mem_empty group member
  · intro columns index found
    rw [Std.TreeMap.getElem?_emptyc] at found
    cases found

theorem registerRegion_grows (valid : Valid sets) (step : sets.registerRegion region = (outcome, next)) :
    next.Valid ∧ sets.Extends next ∧
      ∀ number, outcome = .ok number → next.regions[number.toNat]? = some region := by
  unfold registerRegion at step
  split at step
  · rename_i index found
    cases step
    refine ⟨valid, .refl _, ?_⟩
    intro number same
    cases same
    obtain ⟨bound, atIndex, _⟩ := List.idxOf?_eq_some_iff.mp found
    -- Numbers are of 16 bits, but no region has a larger one.
    have small : index < 65536 := Nat.lt_of_lt_of_le bound valid.numbered
    rw [UInt16.toNat_ofNat', Nat.mod_eq_of_lt small]
    exact List.getElem?_eq_some_iff.mpr ⟨bound, atIndex⟩
  · rename_i absent
    split at step
    · rename_i index counted
      cases step
      obtain ⟨room, number⟩ := count16_eq_ok_iff.mp counted
      refine ⟨⟨?_, ?_, ?_, valid.indexed⟩,
        ⟨rfl, rfl, List.prefix_append _ _, (Extends.refl sets).groups, fun _ _ found => found⟩, ?_⟩
      · have fresh := List.idxOf?_eq_none_iff.mp absent
        exact List.nodup_append.mpr ⟨valid.distinct, List.pairwise_singleton _ _, by
          intro other member added single same
          exact fresh (List.mem_singleton.mp single ▸ same ▸ member)⟩
      · simp only [List.length_append, List.length_singleton]
        omega
      · intro group member
        exact (valid.fits group member).mono (by simp)
      · intro number same
        cases same
        simp [number]
    · cases step
      exact ⟨valid, .refl _, fun number same => by cases same⟩

theorem columns_grows (valid : Valid sets) (step : sets.columns glyph limits ends = (outcome, next)) :
    next.Valid ∧ sets.Extends next ∧ ∀ columns, outcome = .ok columns →
      List.Forall₂ (next.Carries glyph limits) (ends.filter fun (field, _) => !(limits.get field).isZero) columns := by
  -- Regions that were registered before a failure stay, so every way out carries validity and growth.
  induction ends generalizing sets outcome next with
  | nil =>
    cases step
    refine ⟨valid, .refl _, ?_⟩
    intro columns same
    cases same
    exact .nil
  | cons axisEnd ends ih =>
    obtain ⟨field, delta⟩ := axisEnd
    unfold columns at step
    split at step
    · rename_i zero
      obtain ⟨validNext, grown, found⟩ := ih valid step
      refine ⟨validNext, grown, ?_⟩
      simpa only [List.filter_cons, zero, Bool.not_true, Bool.false_eq_true, if_false] using found
    · rename_i moves
      split at step
      · cases step
        exact ⟨valid, .refl _, fun columns same => by cases same⟩
      · rename_i peak isPeak
        split at step
        · rename_i error registered registering
          cases step
          obtain ⟨validNext, grown, _⟩ := registerRegion_grows valid registering
          exact ⟨validNext, grown, fun columns same => by cases same⟩
        · rename_i region registered registering
          obtain ⟨validNext, grown, atRegion⟩ := registerRegion_grows valid registering
          split at step
          · cases step
            exact ⟨validNext, grown, fun columns same => by cases same⟩
          · rename_i narrow narrowing
            split at step
            · rename_i rest final recursion
              cases step
              obtain ⟨validFinal, grownFurther, found⟩ := ih validNext recursion
              refine ⟨validFinal, grown.trans grownFurther, ?_⟩
              intro columns same
              cases same
              rw [List.filter_cons, if_pos (by simpa using moves)]
              refine .cons ⟨peak, ?_, grownFurther.region (atRegion region rfl), ?_⟩ (found rest rfl)
              · rw [(grown.trans grownFurther).peak, isPeak]
              · exact (coordinate16_eq_ok_iff.mp narrowing).2
            · rename_i error final recursion
              cases step
              obtain ⟨validFinal, grownFurther, _⟩ := ih validNext recursion
              exact ⟨validFinal, grown.trans grownFurther, fun columns same => by cases same⟩

/-- The group that is opened takes one more row; nothing else changes. -/
theorem openGroup_grows {regions : List UInt16} (valid : Valid sets) (narrow : regions.length ≤ 4)
    (known : ∀ region ∈ regions, region.toNat < sets.regions.length)
    (step : sets.openGroup regions = (outer, next)) :
    next.Valid ∧ sets.Extends next ∧ next.indexes = sets.indexes ∧
      ∃ group, next.groups[outer]? = some group ∧ group.regions = regions ∧ group.rows.size < maxRows := by
  unfold openGroup at step
  split at step
  · rename_i index found
    cases step
    obtain ⟨bound, fitting, _⟩ := Array.findIdx?_eq_some_iff_getElem.mp found
    simp only [Bool.and_eq_true, beq_iff_eq, decide_eq_true_eq] at fitting
    exact ⟨valid, .refl _, rfl, _, Array.getElem?_eq_getElem bound, fitting⟩
  · cases step
    have grown : sets.Extends { sets with groups := sets.groups.push ⟨regions, #[]⟩ } := by
      refine ⟨rfl, rfl, List.prefix_refl _, ?_, fun _ _ found => found⟩
      intro outer group found
      have bound := (Array.getElem?_eq_some_iff.mp found).1
      exact ⟨group, by rw [Array.getElem?_push_lt bound, ← found, Array.getElem?_eq_getElem bound], rfl,
        List.prefix_refl _⟩
    refine ⟨⟨valid.distinct, valid.numbered, ?_, ?_⟩, grown, rfl, ⟨regions, #[]⟩, ?_, rfl, Nat.zero_lt_succ _⟩
    · intro group member
      rcases Array.mem_push.mp member with old | same
      · exact valid.fits group old
      · subst same
        exact ⟨narrow, known, Nat.zero_le _, fun row member => absurd member (Array.not_mem_empty row)⟩
    · intro columns index found
      exact grown.row? (valid.indexed columns index found)
    · exact Array.getElem?_push_size

theorem modify_grows {sets : DeltaSets} {outer : Nat} {group : DeltaGroup} (row : List Int16) (valid : sets.Valid)
    (found : sets.groups[outer]? = some group) (room : group.rows.size < maxRows)
    (aligned : row.length = group.regions.length) :
    Valid { sets with groups := sets.groups.modify outer (DeltaGroup.push row) } ∧
      sets.Extends { sets with groups := sets.groups.modify outer (DeltaGroup.push row) } := by
  have grown : sets.Extends { sets with groups := sets.groups.modify outer (DeltaGroup.push row) } := by
    refine ⟨rfl, rfl, List.prefix_refl _, ?_, fun _ _ found => found⟩
    intro other there atOther
    rw [Array.getElem?_modify, atOther]
    split
    · refine ⟨_, rfl, rfl, ?_⟩
      simp only [DeltaGroup.push, Array.toList_push]
      exact List.prefix_append _ _
    · exact ⟨there, rfl, rfl, List.prefix_refl _⟩
  refine ⟨⟨valid.distinct, valid.numbered, ?_, fun columns index at' => grown.row? (valid.indexed columns index at')⟩,
    grown⟩
  intro other member
  obtain ⟨place, atPlace⟩ := Array.mem_iff_getElem?.mp member
  rw [Array.getElem?_modify] at atPlace
  split at atPlace
  · rename_i same
    subst same
    rw [found] at atPlace
    cases atPlace
    have fits := valid.fits group (Array.mem_of_getElem? found)
    refine ⟨fits.narrow, fits.known, ?_, ?_⟩
    · simp only [DeltaGroup.push, Array.size_push]
      omega
    · intro other member
      rcases Array.mem_push.mp member with old | same
      · exact fits.aligned other old
      · exact same ▸ aligned
  · exact valid.fits other (Array.mem_of_getElem? atPlace)

theorem pushRow_grows {columns : List Column} (valid : Valid sets) (narrow : columns.length ≤ 4)
    (known : ∀ column ∈ columns, column.region.toNat < sets.regions.length)
    (step : sets.pushRow columns = (outcome, next)) :
    next.Valid ∧ sets.Extends next ∧ next.indexes = sets.indexes ∧
      ∀ index, outcome = .ok index → next.row? index = some columns := by
  unfold pushRow at step
  cases opening : sets.openGroup (columns.map Column.region) with
  | mk outer opened =>
    rw [opening] at step
    obtain ⟨validOpened, grown, sameIndexes, group, found, sameRegions, room⟩ := openGroup_grows valid
      (by simpa using narrow) (by simpa using known) opening
    obtain ⟨validNext, pushed⟩ := modify_grows (columns.map Column.delta) validOpened found room
      (by rw [sameRegions, List.length_map, List.length_map])
    have inner : opened.rowCount outer = group.rows.size := by simp [rowCount, found]
    simp only [inner] at step
    cases step
    refine ⟨validNext, grown.trans pushed, sameIndexes, ?_⟩
    intro index indexing
    simp only [bind_eq_ok_iff, pure_eq_ok_iff] at indexing
    obtain ⟨outerNumber, outerCounted, innerNumber, innerCounted, rfl⟩ := indexing
    have atOuter := (count16_eq_ok_iff.mp outerCounted).2
    have atInner := (count16_eq_ok_iff.mp innerCounted).2
    simp [row?, Array.getElem?_modify, atOuter, atInner, found, DeltaGroup.push, sameRegions]

theorem Carries.known {sets : DeltaSets} {axisEnd : LimitField × Int} {column : Column}
    (carried : sets.Carries glyph limits axisEnd column) : column.region.toNat < sets.regions.length := by
  obtain ⟨_, _, atRegion, _⟩ := carried
  exact (List.getElem?_eq_some_iff.mp atRegion).1

theorem record_grows {sets : DeltaSets} {index : DeltaSetIndex} {columns : List Column} (valid : sets.Valid)
    (there : sets.row? index = some columns) (fresh : sets.indexes[columns]? = none) :
    Valid { sets with indexes := sets.indexes.insert columns index } ∧
      sets.Extends { sets with indexes := sets.indexes.insert columns index } := by
  refine ⟨⟨valid.distinct, valid.numbered, valid.fits, ?_⟩,
    rfl, rfl, List.prefix_refl _, (Extends.refl sets).groups, ?_⟩
  · intro others number found
    rw [Std.TreeMap.getElem?_insert] at found
    split at found
    · rename_i same
      cases found
      exact Std.LawfulEqOrd.eq_of_compare same ▸ there
    · exact valid.indexed others number found
  · intro others number found
    rw [Std.TreeMap.getElem?_insert, if_neg, found]
    intro same
    cases Std.LawfulEqOrd.eq_of_compare same
    rw [fresh] at found
    cases found

/-- The index leads to the row of a request: one column for each end that can be reached, in any order. -/
def Holds (sets : DeltaSets) (glyph : String) (limits : ElongationLimits) (deltas : EndDeltas)
    (index : DeltaSetIndex) : Prop :=
  ∃ row columns : List Column, sets.indexes[row]? = some index ∧ row.Perm columns ∧
    List.Forall₂ (sets.Carries glyph limits) (deltas.moving limits) columns

theorem Holds.mono {before after : DeltaSets} (held : before.Holds glyph limits deltas index)
    (grown : before.Extends after) : after.Holds glyph limits deltas index := by
  obtain ⟨row, columns, recorded, same, carried⟩ := held
  exact ⟨row, columns, grown.indexes _ _ recorded, same, carried.imp fun _ _ here => here.mono grown⟩

/-- One request: what was there stays, and an index that is handed out has the columns of the request. -/
theorem allocate_grows (valid : Valid sets) (step : sets.allocate glyph deltas limits = (outcome, next)) :
    next.Valid ∧ sets.Extends next ∧ ∀ index, outcome = .ok index → next.Holds glyph limits deltas index := by
  unfold allocate at step
  split at step
  · cases step
    exact ⟨valid, .refl _, fun index same => by cases same⟩
  · split at step
    · rename_i registering
      cases step
      obtain ⟨validNext, grown, _⟩ := columns_grows valid registering
      exact ⟨validNext, grown, fun index same => by cases same⟩
    · rename_i columns registered registering
      obtain ⟨validNext, grown, carried⟩ := columns_grows valid registering
      have carried := carried columns rfl
      simp only at step
      split at step
      · -- Columns that are known already: their index is handed out again.
        rename_i known found
        cases step
        refine ⟨validNext, grown, ?_⟩
        intro index same
        cases same
        exact ⟨_, columns, found, Column.sort_perm columns, carried⟩
      · -- Columns that are not: a row is pushed and recorded.
        rename_i unknown
        have narrow : (Column.sort columns).length ≤ 4 := by
          rw [(Column.sort_perm columns).length_eq, ← carried.length_eq]
          exact Nat.le_trans (List.length_filter_le _ _) (by simp [EndDeltas.ends])
        have known : ∀ column ∈ Column.sort columns, column.region.toNat < registered.regions.length := by
          intro column member
          obtain ⟨_, _, here⟩ := exists_of_forall₂ carried ((Column.sort_perm columns).mem_iff.mp member)
          exact here.known
        split at step
        · rename_i pushing
          cases step
          obtain ⟨validFinal, pushed, _⟩ := pushRow_grows validNext narrow known pushing
          exact ⟨validFinal, grown.trans pushed, fun index same => by cases same⟩
        · rename_i index final pushing
          cases step
          obtain ⟨validFinal, pushed, sameIndexes, handed⟩ := pushRow_grows validNext narrow known pushing
          obtain ⟨validRecorded, recorded⟩ := record_grows validFinal (handed index rfl)
            (by rw [sameIndexes, unknown])
          refine ⟨validRecorded, (grown.trans pushed).trans recorded, ?_⟩
          intro number same
          cases same
          exact ⟨_, columns, Std.TreeMap.getElem?_insert_self, Column.sort_perm columns,
            carried.imp fun _ _ here => here.mono (pushed.trans recorded)⟩

/-- What is asked for one coordinate of a glyph. -/
structure Request where
  glyph : String
  deltas : EndDeltas
  limits : ElongationLimits

/-- The delta sets behind a request, whether it was met or not. -/
def serve (sets : DeltaSets) (request : Request) : DeltaSets :=
  (sets.allocate request.glyph request.deltas request.limits).2

def serveAll (sets : DeltaSets) (requests : List Request) : DeltaSets := requests.foldl serve sets

theorem serveAll_append (sets : DeltaSets) (earlier later : List Request) :
    sets.serveAll (earlier ++ later) = (sets.serveAll earlier).serveAll later := List.foldl_append

theorem serveAll_grows {sets : DeltaSets} (valid : sets.Valid) (requests : List Request) :
    (sets.serveAll requests).Valid ∧ sets.Extends (sets.serveAll requests) := by
  induction requests generalizing sets with
  | nil => exact ⟨valid, .refl _⟩
  | cons request requests ih =>
    obtain ⟨validNext, grown, _⟩ := allocate_grows valid (rfl : sets.allocate _ _ _ = (_, sets.serve request))
    obtain ⟨validFinal, grownFurther⟩ := ih validNext
    exact ⟨validFinal, grown.trans grownFurther⟩

/-- Whatever is asked before and after, met or not: regions keep their numbers and rows their places, and an index that
was handed out leads to a row with exactly one column for each end that its request can reach. -/
theorem handed_out_row_permanent (normalized : Bool) (uniform : Option ElongationLimits)
    (earlier later : List Request) :
    (serveAll { normalized, uniform } earlier).Extends (serveAll { normalized, uniform } (earlier ++ later)) ∧
    ∀ (request : Request) (index : DeltaSetIndex),
      ((serveAll { normalized, uniform } earlier).allocate request.glyph request.deltas request.limits).1 = .ok index →
      let sets := serveAll { normalized, uniform } (earlier ++ request :: later)
      sets.regions.Nodup ∧ ∃ group row columns,
        sets.groups[index.outer.toNat]? = some group ∧ group.rows[index.inner.toNat]? = some row ∧
        row.length = group.regions.length ∧ (List.zipWith Column.mk group.regions row).Perm columns ∧
        List.Forall₂ (sets.Carries request.glyph request.limits) (request.deltas.moving request.limits) columns := by
  have start := (serveAll_grows (.initial normalized uniform) earlier).1
  refine ⟨?_, ?_⟩
  · rw [serveAll_append]
    exact (serveAll_grows start later).2
  · intro request index handed sets
    have run : sets = ((serveAll { normalized, uniform } earlier).serve request).serveAll later :=
      serveAll_append _ earlier (request :: later)
    obtain ⟨validNext, _, found⟩ := allocate_grows start
      (rfl : (serveAll { normalized, uniform } earlier).allocate request.glyph request.deltas request.limits = (_, _))
    obtain ⟨validFinal, grown⟩ := serveAll_grows validNext later
    obtain ⟨row, columns, recorded, same, carried⟩ := (found index handed).mono grown
    rw [run]
    have kept := validFinal.indexed _ _ recorded
    simp only [row?, Option.bind_eq_some_iff, Option.map_eq_some_iff] at kept
    obtain ⟨group, atOuter, deltas, atInner, rfl⟩ := kept
    refine ⟨validFinal.distinct, group, deltas, columns, atOuter, atInner, ?_, same, carried⟩
    exact (validFinal.fits group (Array.mem_of_getElem? atOuter)).aligned deltas (Array.mem_of_getElem? atInner)

/-- A request that fails on its second delta has registered both regions by then; the next one finds them. -/
theorem handed_out_row_permanent_after_failure :
    let limits : ElongationLimits := ⟨.negOne, .one, .zero, .zero⟩
    let refused : Request := ⟨"a", ⟨5, 40000, 0, 0⟩, limits⟩
    let request : Request := ⟨"a", ⟨7, -3, 0, 0⟩, limits⟩
    let sets := serveAll { normalized := false, uniform := none } [refused, request, refused]
    ((serveAll { normalized := false, uniform := none } [refused]).allocate "a" request.deltas limits).1 = .ok ⟨0, 0⟩ ∧
    ∃ group row columns, sets.groups[0]? = some group ∧ group.rows[0]? = some row ∧
      row.length = group.regions.length ∧ (List.zipWith Column.mk group.regions row).Perm columns ∧
      List.Forall₂ (sets.Carries request.glyph request.limits) (request.deltas.moving request.limits) columns := by
  intro limits refused request sets
  have handed : ((serveAll { normalized := false, uniform := none } [refused]).allocate request.glyph request.deltas
      request.limits).1 = .ok ⟨0, 0⟩ := by decide +kernel
  exact ⟨handed, ((handed_out_row_permanent false none [refused] [refused]).2 request ⟨0, 0⟩ handed).2⟩

end DeltaSets

end Kashida
