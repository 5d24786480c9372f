import Kashida.Proofs.Fallible
import Mathlib.Data.List.Induction
import Std.Data.TreeMap

/-! Maps that are filled entry by entry, where a later entry takes the place of an earlier one. -/
namespace Kashida

/-- The last of the values with a property. -/
def LastWith (holds : α → Prop) (values : List α) (value : α) : Prop :=
  ∃ before after, values = before ++ value :: after ∧ holds value ∧ ∀ later ∈ after, ¬holds later

namespace LastWith

theorem mem {holds : α → Prop} (last : LastWith holds values value) : value ∈ values ∧ holds value := by
  obtain ⟨before, after, rfl, here, _⟩ := last
  exact ⟨List.mem_append_right before List.mem_cons_self, here⟩

theorem concat_iff {holds : α → Prop} {values : List α} {last value : α} (here : holds last) :
    LastWith holds (values ++ [last]) value ↔ value = last := by
  constructor
  · rintro ⟨before, after, split, _, others⟩
    cases after using List.reverseRecOn with
    | nil => exact (List.singleton_inj.mp (List.append_inj' split rfl).2).symm
    | append_singleton after final =>
      rw [← List.cons_append, ← List.append_assoc] at split
      cases List.singleton_inj.mp (List.append_inj' split rfl).2
      exact absurd here (others last (List.mem_append_right after List.mem_cons_self))
  · rintro rfl
    exact ⟨values, [], rfl, here, fun later member => by cases member⟩

theorem concat_iff_of_not {holds : α → Prop} {values : List α} {last value : α} (absent : ¬holds last) :
    LastWith holds (values ++ [last]) value ↔ LastWith holds values value := by
  constructor
  · rintro ⟨before, after, split, isLast, others⟩
    cases after using List.reverseRecOn with
    | nil =>
      cases List.singleton_inj.mp (List.append_inj' split rfl).2
      exact absurd isLast absent
    | append_singleton after final =>
      rw [← List.cons_append, ← List.append_assoc] at split
      exact ⟨before, after, (List.append_inj' split rfl).1, isLast,
        fun later member => others later (List.mem_append_left _ member)⟩
  · rintro ⟨before, after, rfl, isLast, others⟩
    refine ⟨before, after ++ [last], by rw [List.append_assoc, List.cons_append], isLast, ?_⟩
    intro later member
    rcases List.mem_append.mp member with early | final
    · exact others later early
    · exact List.mem_singleton.mp final ▸ absent

end LastWith

theorem exists_lastWith_iff {holds : α → Prop} {values : List α} :
    (∃ value, LastWith holds values value) ↔ ∃ value ∈ values, holds value := by
  constructor
  · rintro ⟨value, last⟩
    exact ⟨value, last.mem⟩
  · induction values using List.reverseRecOn with
    | nil =>
      rintro ⟨_, member, _⟩
      cases member
    | append_singleton values last ih =>
      rintro ⟨value, member, here⟩
      by_cases isLast : holds last
      · exact ⟨last, (LastWith.concat_iff isLast).mpr rfl⟩
      · rcases List.mem_append.mp member with early | final
        · obtain ⟨value, found⟩ := ih ⟨value, early, here⟩
          exact ⟨value, (LastWith.concat_iff_of_not isLast).mpr found⟩
        · exact absurd (List.mem_singleton.mp final ▸ here) isLast

section

variable {κ : Type} [Ord κ] [Std.TransOrd κ]

/-- Entries that are put in one after the other: the last one counts. -/
theorem getElem?_foldl_insert [Std.LawfulEqOrd κ] [DecidableEq κ] (entries : List (κ × β)) (map : Std.TreeMap κ β)
    (key : κ) : (entries.foldl (fun map entry => map.insert entry.1 entry.2) map)[key]? =
      (entries.reverse.lookup key).or map[key]? := by
  induction entries using List.reverseRecOn with
  | nil => rfl
  | append_singleton entries last ih =>
    rw [List.foldl_append, List.foldl_cons, List.foldl_nil, Std.TreeMap.getElem?_insert, ih, List.reverse_append,
      List.reverse_singleton, List.singleton_append, List.lookup_cons]
    by_cases same : last.1 = key
    · rw [if_pos (Std.LawfulEqOrd.compare_eq_iff_eq.mpr same), beq_iff_eq.mpr same.symm, Option.some_or]
    · rw [if_neg (by rwa [Std.LawfulEqOrd.compare_eq_iff_eq]), beq_eq_false_iff_ne.mpr (Ne.symm same)]

theorem getElem?_foldl_insert_same [Std.LawfulEqOrd κ] [DecidableEq κ] (value : β) (keys : List κ)
    (map : Std.TreeMap κ β) (key : κ) : (keys.foldl (fun map other => map.insert other value) map)[key]? =
      if key ∈ keys then some value else map[key]? := by
  induction keys generalizing map with
  | nil => rfl
  | cons other keys ih =>
    rw [List.foldl_cons, ih, Std.TreeMap.getElem?_insert]
    by_cases same : other = key
    · subst same
      simp
    · simp [same, Ne.symm same]

variable {step : Std.TreeMap κ β → α → Except ε (Std.TreeMap κ β)}
  {has : α → κ → Prop} {gives : α → κ → β → Prop}

/-- Entries that each set their own keys and leave the other keys alone: a key has what the last entry that sets it
gives. -/
theorem getElem?_of_foldlM
    (sets : ∀ map entry next, step map entry = .ok next → ∀ key, has entry key →
      ∀ value, next[key]? = some value ↔ gives entry key value)
    (leaves : ∀ map entry next, step map entry = .ok next → ∀ key, ¬has entry key → next[key]? = map[key]?)
    {entries : List α} {map : Std.TreeMap κ β} (made : entries.foldlM step ∅ = .ok map) (key : κ) (value : β) :
    map[key]? = some value ↔ ∃ entry, LastWith (fun entry => has entry key) entries entry ∧ gives entry key value := by
  induction entries using List.reverseRecOn generalizing map with
  | nil =>
    cases made
    rw [Std.TreeMap.getElem?_emptyc]
    simp [LastWith]
  | append_singleton entries last ih =>
    simp only [List.foldlM_append, List.foldlM_cons, List.foldlM_nil, bind_eq_ok_iff, pure_eq_ok_iff] at made
    obtain ⟨before, first, _, stepped, rfl⟩ := made
    by_cases here : has last key
    · have isLast : ∀ entry, LastWith (fun entry => has entry key) (entries ++ [last]) entry ↔ entry = last :=
        fun entry => LastWith.concat_iff here
      rw [sets _ _ _ stepped key here]
      simp only [isLast, exists_eq_left]
    · have isEarlier : ∀ entry, LastWith (fun entry => has entry key) (entries ++ [last]) entry ↔
          LastWith (fun entry => has entry key) entries entry := fun entry => LastWith.concat_iff_of_not here
      rw [leaves _ _ _ stepped key here, ih first]
      simp only [isEarlier]

end

end Kashida
