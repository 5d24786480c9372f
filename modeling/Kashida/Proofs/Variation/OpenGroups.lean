import Kashida.Proofs.Variation.Sharing

/-! The group that takes the next row. Of the groups with the same regions only the last has room, so that it is enough
to remember which one was opened last. -/
namespace Kashida

namespace DeltaSets

/-- A group with the same regions as a later one takes no more rows. -/
def Filled (sets : DeltaSets) : Prop :=
  ∀ (early late : Nat) (group other : DeltaGroup), early < late → sets.groups[early]? = some group →
    sets.groups[late]? = some other → group.regions = other.regions → maxRows ≤ group.rows.size

/-- The group that was opened last for each list of regions. -/
def latest (groups : List DeltaGroup) : Std.TreeMap (List UInt16) Nat :=
  groups.zipIdx.foldl (fun latest entry => latest.insert entry.1.regions entry.2) ∅

theorem latest_concat (groups : List DeltaGroup) (group : DeltaGroup) (regions : List UInt16) :
    (latest (groups ++ [group]))[regions]? =
      if group.regions = regions then some groups.length else (latest groups)[regions]? := by
  have inserted : latest (groups ++ [group]) = (latest groups).insert group.regions groups.length := by
    simp [latest, List.zipIdx_append]
  rw [inserted, Std.TreeMap.getElem?_insert]
  simp only [Std.LawfulEqOrd.compare_eq_iff_eq]

/-- Only the regions of the groups matter. -/
theorem latest_eq_of_regions_eq {groups others : List DeltaGroup}
    (same : groups.map DeltaGroup.regions = others.map DeltaGroup.regions) : latest groups = latest others := by
  have byRegions : ∀ groups : List DeltaGroup, latest groups =
      (groups.map DeltaGroup.regions).zipIdx.foldl (fun latest entry => latest.insert entry.1 entry.2) ∅ := by
    intro groups
    rw [latest, List.zipIdx_map, List.foldl_map]
    rfl
  rw [byRegions, byRegions, same]

theorem latest_modify (groups : Array DeltaGroup) (outer : Nat) (row : List Int16) :
    latest (groups.modify outer (DeltaGroup.push row)).toList = latest groups.toList := by
  apply latest_eq_of_regions_eq
  apply List.ext_getElem?
  intro place
  rw [List.getElem?_map, List.getElem?_map, Array.getElem?_toList, Array.getElem?_toList, Array.getElem?_modify]
  split
  · cases groups[place]? <;> rfl
  · rfl

theorem latest_eq_some {groups : List DeltaGroup} {regions : List UInt16} {outer : Nat}
    (remembered : (latest groups)[regions]? = some outer) :
    (∃ group, groups[outer]? = some group ∧ group.regions = regions) ∧
      ∀ later other, outer < later → groups[later]? = some other → other.regions ≠ regions := by
  induction groups using List.reverseRecOn with
  | nil => cases remembered
  | append_singleton groups last ih =>
    rw [latest_concat] at remembered
    split at remembered
    · rename_i same
      cases remembered
      refine ⟨⟨last, List.getElem?_concat_length, same⟩, fun later other behind found => ?_⟩
      rw [List.getElem?_eq_none (by simp; omega)] at found
      cases found
    · rename_i different
      obtain ⟨⟨group, found, same⟩, behind⟩ := ih remembered
      have bound := (List.getElem?_eq_some_iff.mp found).1
      refine ⟨⟨group, by rw [List.getElem?_append_left bound, found], same⟩, fun later other after atLater => ?_⟩
      rcases Nat.lt_or_ge later groups.length with before | isLast
      · rw [List.getElem?_append_left before] at atLater
        exact behind later other after atLater
      · rw [List.getElem?_append_right isLast, List.getElem?_singleton] at atLater
        split at atLater
        · cases atLater
          exact different
        · cases atLater

theorem latest_eq_none {groups : List DeltaGroup} {regions : List UInt16}
    (unknown : (latest groups)[regions]? = none) : ∀ group ∈ groups, group.regions ≠ regions := by
  induction groups using List.reverseRecOn with
  | nil => exact fun group member => by cases member
  | append_singleton groups last ih =>
    rw [latest_concat] at unknown
    split at unknown
    · cases unknown
    · rename_i different
      intro group member
      rcases List.mem_append.mp member with old | isLast
      · exact ih unknown group old
      · exact List.mem_singleton.mp isLast ▸ different

/-- The group that was opened last for the regions takes the next row, or a new one if that is full. -/
def openLatest (sets : DeltaSets) (latest : Std.TreeMap (List UInt16) Nat) (regions : List UInt16) : Nat × DeltaSets :=
  (latest[regions]?.filter fun outer => sets.rowCount outer < maxRows).elim
    (sets.groups.size, { sets with groups := sets.groups.push ⟨regions, #[]⟩ }) fun outer => (outer, sets)

theorem Filled.findIdx?_eq {sets : DeltaSets} (filled : sets.Filled) (regions : List UInt16) :
    (sets.groups.findIdx? fun group => group.regions == regions && group.rows.size < maxRows) =
      (latest sets.groups.toList)[regions]?.filter fun outer => sets.rowCount outer < maxRows := by
  cases remembered : (latest sets.groups.toList)[regions]? with
  | none =>
    have none := latest_eq_none remembered
    refine Array.findIdx?_eq_none_iff.mpr fun group member => ?_
    simp [none group (Array.mem_toList_iff.mpr member)]
  | some outer =>
    obtain ⟨⟨group, found, same⟩, behind⟩ := latest_eq_some remembered
    rw [Array.getElem?_toList] at found
    have count : sets.rowCount outer = group.rows.size := by simp [rowCount, found]
    rw [Option.filter_some, count]
    split
    · rename_i room
      obtain ⟨bound, isGroup⟩ := Array.getElem?_eq_some_iff.mp found
      refine Array.findIdx?_eq_some_iff_getElem.mpr ⟨bound, by simpa [isGroup, same] using room, ?_⟩
      -- An earlier group with these regions is full.
      intro early before fits
      simp only [Bool.and_eq_true, beq_iff_eq, decide_eq_true_eq] at fits
      have full := filled early outer _ group before (Array.getElem?_eq_getElem _) found (by rw [fits.1, same])
      omega
    · rename_i full
      refine Array.findIdx?_eq_none_iff.mpr fun other member => ?_
      obtain ⟨place, atPlace⟩ := Array.mem_iff_getElem?.mp member
      rw [Bool.and_eq_false_imp, beq_iff_eq]
      intro sameRegions
      have full : maxRows ≤ other.rows.size := by
        rcases Nat.lt_trichotomy place outer with before | rfl | after
        · exact filled place outer other group before atPlace found (by rw [sameRegions, same])
        · cases atPlace.symm.trans found
          simpa using full
        · rw [← Array.getElem?_toList] at atPlace
          exact absurd sameRegions (behind place other after atPlace)
      simpa using full

theorem openGroup_eq_openLatest {sets : DeltaSets} (filled : sets.Filled) (regions : List UInt16) :
    sets.openGroup regions = sets.openLatest (latest sets.groups.toList) regions := by
  unfold openGroup openLatest
  rw [← filled.findIdx?_eq]
  cases sets.groups.findIdx? _ <;> rfl

theorem Filled.openGroup {sets : DeltaSets} (filled : sets.Filled) (regions : List UInt16) :
    (sets.openGroup regions).2.Filled := by
  unfold DeltaSets.openGroup
  split
  · exact filled
  · rename_i full
    have full := Array.findIdx?_eq_none_iff.mp full
    intro early late group other before atEarly atLate same
    have inside := (Array.getElem?_eq_some_iff.mp atLate).1
    rw [Array.size_push] at inside
    rw [Array.getElem?_push_lt (by omega)] at atEarly
    have there : sets.groups[early]? = some group := by rw [← atEarly, Array.getElem?_eq_getElem]
    rcases Nat.lt_succ_iff_lt_or_eq.mp inside with old | isNew
    · rw [Array.getElem?_push_lt old] at atLate
      exact filled early late group other before there (by rw [← atLate, Array.getElem?_eq_getElem]) same
    · subst isNew
      rw [Array.getElem?_push_size] at atLate
      cases atLate
      have noRoom := full group (Array.mem_of_getElem? there)
      simpa [same] using noRoom

/-- A group that takes a row keeps its regions. -/
theorem Filled.push {sets : DeltaSets} (filled : sets.Filled) (outer : Nat) (row : List Int16) :
    Filled { sets with groups := sets.groups.modify outer (DeltaGroup.push row) } := by
  have kept : ∀ (number : Nat) (group : DeltaGroup),
      (sets.groups.modify outer (DeltaGroup.push row))[number]? = some group →
      ∃ old, sets.groups[number]? = some old ∧ old.regions = group.regions ∧ old.rows.size ≤ group.rows.size := by
    intro number group found
    rw [Array.getElem?_modify] at found
    split at found
    · obtain ⟨old, there, rfl⟩ := Option.map_eq_some_iff.mp found
      exact ⟨old, there, rfl, by simp [DeltaGroup.push]⟩
    · exact ⟨group, found, rfl, Nat.le_refl _⟩
  intro early late group other before atEarly atLate same
  obtain ⟨oldGroup, earlyThere, earlyRegions, rows⟩ := kept early group atEarly
  obtain ⟨oldOther, lateThere, lateRegions, _⟩ := kept late other atLate
  have full := filled early late oldGroup oldOther before earlyThere lateThere
    (by rw [earlyRegions, same, lateRegions])
  exact Nat.le_trans full rows

theorem Filled.pushRow {sets : DeltaSets} {columns : List Column} (filled : sets.Filled)
    (pushed : sets.pushRow columns = (outcome, after)) : after.Filled := by
  obtain rfl : (sets.pushRow columns).2 = after := by rw [pushed]
  exact (filled.openGroup _).push _ _

/-- The group that takes a row is the one to remember for its regions. -/
theorem latest_pushRow {sets : DeltaSets} {columns : List Column} (filled : sets.Filled) (regions : List UInt16) :
    (latest (sets.pushRow columns).2.groups.toList)[regions]? =
      if columns.map Column.region = regions then some (sets.openGroup (columns.map Column.region)).1
      else (latest sets.groups.toList)[regions]? := by
  have pushed : (sets.pushRow columns).2.groups =
      (sets.openGroup (columns.map Column.region)).2.groups.modify (sets.openGroup (columns.map Column.region)).1
        (DeltaGroup.push (columns.map Column.delta)) := rfl
  rw [pushed, latest_modify, openGroup_eq_openLatest filled, openLatest]
  cases remembered : (latest sets.groups.toList)[columns.map Column.region]?.filter fun outer =>
      sets.rowCount outer < maxRows with
  | none => exact Array.toList_push ▸ latest_concat sets.groups.toList ⟨columns.map Column.region, #[]⟩ regions
  | some outer =>
    have there := (Option.filter_eq_some_iff.mp remembered).1
    simp only [Option.elim]
    split
    · rename_i same
      rw [← same, there]
    · rfl

theorem Filled.of_groups_eq {before after : DeltaSets} (filled : before.Filled) (same : after.groups = before.groups) :
    after.Filled := by
  unfold Filled
  rwa [same]

theorem Serving.filled {sets : DeltaSets} {request : Request} {outcome : Except CompileError DeltaSetIndex}
    (serving : Serving sets request outcome after) (filled : sets.Filled) : after.Filled := by
  cases serving with
  | refused => exact filled
  | failed _ registered => exact filled.of_groups_eq (columns_registers registered).groups
  | found _ registered => exact filled.of_groups_eq (columns_registers registered).groups
  | unnumbered _ registered _ pushed => exact (filled.of_groups_eq (columns_registers registered).groups).pushRow pushed
  | added _ registered _ pushed =>
    have last := (filled.of_groups_eq (columns_registers registered).groups).pushRow pushed
    exact last.of_groups_eq rfl

theorem filled_serveAll {sets : DeltaSets} (filled : sets.Filled) (run : List Request) :
    (sets.serveAll run).Filled := by
  induction run generalizing sets with
  | nil => exact filled
  | cons request run ih => exact ih ((serving sets request).filled filled)

/-- After any run of requests, a row goes to the group that was opened last for its regions, or to a new one if that is
full, and the group that takes it is the one to remember. -/
theorem openGroup_serveAll (normalized : Bool) (uniform : Option ElongationLimits) (run : List Request)
    (columns : List Column) :
    let sets := serveAll { normalized, uniform } run
    let regions := columns.map Column.region
    sets.openGroup regions = sets.openLatest (latest sets.groups.toList) regions ∧
      ∀ others, (latest (sets.pushRow columns).2.groups.toList)[others]? =
        if regions = others then some (sets.openGroup regions).1 else (latest sets.groups.toList)[others]? := by
  intro sets regions
  have filled : sets.Filled := by
    apply filled_serveAll
    intro early late group other before atEarly
    rw [Array.getElem?_empty] at atEarly
    cases atEarly
  exact ⟨openGroup_eq_openLatest filled regions, fun others => latest_pushRow filled others⟩

end DeltaSets

end Kashida
