import Kashida.Positioning.Mark
import Mathlib.Data.List.Nodup

/-! Values by name: what is found under a name after values were set or left out. -/
namespace Kashida

namespace ByName

theorem lookup_cons (entry : String × α) (values : ByName α) (name : String) :
    List.lookup name (entry :: values) = if name = entry.1 then some entry.2 else values.lookup name := by
  rw [List.lookup_cons]
  by_cases same : name = entry.1
  · rw [if_pos same, beq_iff_eq.mpr same]
  · rw [if_neg same, beq_eq_false_iff_ne.mpr same]

theorem lookup_eq_none {values : ByName α} (absent : name ∉ values.map Prod.fst) : values.lookup name = none := by
  rw [List.lookup_eq_none_iff]
  intro entry member
  rw [bne_iff_ne]
  rintro rfl
  exact absent (List.mem_map_of_mem member)

theorem mem_of_lookup {values : ByName α} (found : values.lookup name = some value) : (name, value) ∈ values := by
  obtain ⟨before, after, rfl, _⟩ := List.lookup_eq_some_iff.mp found
  exact List.mem_append_right before List.mem_cons_self

theorem lookup_put (name : String) (value : α) (values : ByName α) (other : String) :
    (values.put name value).lookup other = if other = name then some value else values.lookup other := by
  induction values with
  | nil => exact lookup_cons (name, value) [] other
  | cons entry values ih =>
    unfold put
    by_cases isName : entry.1 = name
    · rw [if_pos isName, lookup_cons, lookup_cons, isName]
      split <;> rfl
    · rw [if_neg isName, lookup_cons, lookup_cons, ih]
      by_cases isEntry : other = entry.1
      · rw [if_pos isEntry, if_pos isEntry, if_neg (isEntry ▸ isName)]
      · rw [if_neg isEntry, if_neg isEntry]

/-- No name is there twice. -/
def Distinct (values : ByName α) : Prop := (values.map Prod.fst).Nodup

instance {values : ByName α} : Decidable values.Distinct := inferInstanceAs (Decidable (List.Nodup _))

theorem mem_names_put {name : String} {value : α} {values : ByName α} {other : String} :
    other ∈ (values.put name value).map Prod.fst ↔ other = name ∨ other ∈ values.map Prod.fst := by
  induction values with
  | nil => simp [put]
  | cons entry values ih =>
    unfold put
    by_cases isName : entry.1 = name
    · rw [if_pos isName]
      simp [isName]
    · rw [if_neg isName, List.map_cons, List.map_cons, List.mem_cons, List.mem_cons, ih]
      exact or_left_comm

namespace Distinct

variable {values : ByName α}

theorem put (distinct : values.Distinct) (name : String) (value : α) : (values.put name value).Distinct := by
  induction values with
  | nil => exact List.pairwise_singleton _ name
  | cons entry values ih =>
    obtain ⟨new, rest⟩ := List.nodup_cons.mp distinct
    unfold ByName.put
    by_cases isName : entry.1 = name
    · rw [if_pos isName, ← isName]
      exact distinct
    · rw [if_neg isName]
      apply List.nodup_cons.mpr
      constructor
      · intro again
        exact (mem_names_put.mp again).elim isName new
      · exact ih rest

theorem putAll (distinct : values.Distinct) (more : ByName α) : (values.putAll more).Distinct := by
  induction more generalizing values with
  | nil => exact distinct
  | cons entry more ih => exact ih (distinct.put entry.1 entry.2)

theorem foldl_putAll (distinct : values.Distinct) (blocks : List (ByName α)) :
    (blocks.foldl ByName.putAll values).Distinct := by
  induction blocks generalizing values with
  | nil => exact distinct
  | cons block blocks ih => exact ih (distinct.putAll block)

theorem filter (distinct : values.Distinct) (keep : String × α → Bool) : Distinct (values.filter keep) :=
  List.Nodup.sublist (List.filter_sublist.map Prod.fst) distinct

theorem lookup_of_mem (distinct : values.Distinct) (member : (name, value) ∈ values) :
    values.lookup name = some value := by
  induction values with
  | nil => cases member
  | cons entry values ih =>
    obtain ⟨new, rest⟩ := List.nodup_cons.mp distinct
    rw [lookup_cons]
    rcases List.mem_cons.mp member with rfl | later
    · rw [if_pos rfl]
    · have different : name ≠ entry.1 := by
        rintro rfl
        exact new (List.mem_map.mpr ⟨_, later, rfl⟩)
      rw [if_neg different, ih rest later]

/-- Without names that are there twice, a value that is left out does not give way to another. -/
theorem lookup_filter (distinct : values.Distinct) (keep : α → Bool) (name : String) :
    (values.filter fun entry => keep entry.2).lookup name = (values.lookup name).filter keep := by
  induction values with
  | nil => rfl
  | cons entry values ih =>
    obtain ⟨new, rest⟩ := List.nodup_cons.mp distinct
    rw [List.filter_cons, lookup_cons]
    by_cases isName : name = entry.1
    · rw [if_pos isName, Option.filter_some]
      cases keep entry.2 with
      | true => rw [if_pos rfl, if_pos rfl, lookup_cons, if_pos isName]
      | false =>
        rw [if_neg Bool.false_ne_true, if_neg Bool.false_ne_true, ih rest, lookup_eq_none (isName ▸ new)]
        rfl
    · cases keep entry.2 with
      | true => rw [if_pos rfl, lookup_cons, if_neg isName, if_neg isName, ih rest]
      | false => rw [if_neg Bool.false_ne_true, if_neg isName, ih rest]

theorem lookup_putAll {more : ByName α} (distinct : more.Distinct) (values : ByName α) (name : String) :
    (values.putAll more).lookup name = (more.lookup name).or (values.lookup name) := by
  induction more generalizing values with
  | nil => rfl
  | cons entry more ih =>
    obtain ⟨new, rest⟩ := List.nodup_cons.mp distinct
    have step : values.putAll (entry :: more) = (values.put entry.1 entry.2).putAll more := rfl
    rw [step, ih rest, lookup_put, lookup_cons]
    by_cases isName : name = entry.1
    · rw [if_pos isName, if_pos isName, lookup_eq_none (isName ▸ new)]
      rfl
    · rw [if_neg isName, if_neg isName]

end Distinct

end ByName

end Kashida
