import Kashida.Lookup.Names
import Mathlib.Data.List.Forall2

/-! Registered names as a list: a name has the number of its place, and a new one is put at the end. -/
namespace Kashida

/-- The names are those of the list, each under the number of its place. -/
structure LookupNames.Lists (lookups : LookupNames) (listed : List String) : Prop where
  counted : listed.length ≤ 65536
  size : lookups.size = listed.length
  names : ∀ index : Nat, lookups.names[index]? = listed[index]?
  numbers : ∀ (name : String) (number : UInt16), lookups.number? name = some number ↔ listed[number.toNat]? = some name

namespace LookupNames

/-- A name used inside a lookup is shadowed later on: its scoped form is not registered yet, but will be. -/
def Shadowed (early late : LookupNames) (owner name : String) : Prop :=
  early.number? (owner ++ "." ++ name) = none ∧ late.number? (owner ++ "." ++ name) ≠ none

theorem lists_empty : Lists {} [] := by
  refine ⟨Nat.zero_le _, rfl, ?_, ?_⟩
  · intro index
    exact Std.TreeMap.getElem?_emptyc
  · intro name number
    simp [number?]

namespace Lists

variable {lookups : LookupNames} {listed : List String}

theorem toNat_ofNat {index : Nat} (lists : lookups.Lists listed) (bound : index < listed.length) :
    (UInt16.ofNat index).toNat = index :=
  UInt16.toNat_ofNat_of_lt' (Nat.lt_of_lt_of_le bound lists.counted)

theorem unregistered (lists : lookups.Lists listed) : lookups.number? name = none ↔ name ∉ listed := by
  constructor
  · intro absent member
    obtain ⟨index, found⟩ := List.mem_iff_getElem?.mp member
    have bound := (List.getElem?_eq_some_iff.mp found).1
    have number := (lists.numbers name (.ofNat index)).mpr (by rwa [lists.toNat_ofNat bound])
    rw [absent] at number
    cases number
  · intro absent
    cases found : lookups.number? name with
    | none => rfl
    | some number => exact absurd (List.mem_of_getElem? ((lists.numbers name number).mp found)) absent

/-- Names and numbers, in the order of the list. -/
theorem toList (lists : lookups.Lists listed) :
    lookups.toList = listed.zipIdx.map fun (name, number) => (number, name) := by
  have ascending : lookups.toList.Pairwise fun a b => a.1 < b.1 :=
    Std.TreeMap.ordered_keys_toList.imp fun less => Nat.compare_eq_lt.mp less
  have listedAscending : (listed.zipIdx.map fun (name, number) => (number, name)).Pairwise fun a b => a.1 < b.1 := by
    rw [← List.pairwise_map (f := Prod.fst), List.map_map]
    exact List.zipIdx_map_snd 0 listed ▸ List.pairwise_lt_range'
  have distinct {entries : List (Nat × String)} (less : entries.Pairwise fun a b => a.1 < b.1) : entries.Nodup := by
    refine List.Pairwise.imp ?_ less
    rintro a b less rfl
    exact Nat.lt_irrefl _ less
  refine List.Perm.eq_of_pairwise (fun a b _ _ less more => absurd less (Nat.lt_asymm more))
    ascending listedAscending ?_
  rw [List.perm_ext_iff_of_nodup (distinct ascending) (distinct listedAscending)]
  rintro ⟨number, name⟩
  rw [LookupNames.toList, Std.TreeMap.mem_toList_iff_getElem?_eq_some, lists.names]
  simp [List.mk_mem_zipIdx_iff_getElem?]

theorem entry (lists : lookups.Lists listed) (bound : number < listed.length) :
    lookups.toList[number]? = some (number, listed[number]) := by
  rw [lists.toList]
  simp [bound]

theorem unique (lists : lookups.Lists listed) (others : lookups.Lists other) : listed = other :=
  List.ext_getElem? fun index => (lists.names index).symm.trans (others.names index)

theorem map_snd_toList (lists : lookups.Lists listed) : lookups.toList.map Prod.snd = listed := by
  rw [lists.toList, List.map_map]
  exact List.zipIdx_map_fst 0 listed

theorem numbers_distinct (lists : lookups.Lists listed) :
    lookups.toList.Pairwise fun one other => UInt16.ofNat one.1 ≠ UInt16.ofNat other.1 := by
  have small : ∀ entry ∈ lookups.toList, (UInt16.ofNat entry.1).toNat = entry.1 := by
    intro entry member
    have found := Std.TreeMap.mem_toList_iff_getElem?_eq_some.mp member
    rw [lists.names] at found
    exact lists.toNat_ofNat (List.getElem?_eq_some_iff.mp found).1
  refine Std.TreeMap.ordered_keys_toList.imp_of_mem ?_
  intro one other isOne isOther less same
  have numbers := congrArg UInt16.toNat same
  rw [small one isOne, small other isOther] at numbers
  exact Nat.ne_of_lt (Nat.compare_eq_lt.mp less) numbers

theorem nodup (lists : lookups.Lists listed) : listed.Nodup := by
  refine List.pairwise_iff_getElem.mpr ?_
  intro one other bound otherBound less same
  have isOne := lists.toNat_ofNat bound
  have isOther := lists.toNat_ofNat otherBound
  have first := (lists.numbers listed[other] (.ofNat one)).mpr (by rw [isOne, List.getElem?_eq_getElem bound, same])
  have second := (lists.numbers listed[other] (.ofNat other)).mpr (by rw [isOther, List.getElem?_eq_getElem otherBound])
  have numbers := congrArg UInt16.toNat (Option.some.inj (first.symm.trans second))
  omega

/-- One more name, under the next number. -/
theorem concat (lists : lookups.Lists listed) (fresh : name ∉ listed) (room : listed.length ≤ 65535) :
    Lists ⟨lookups.names.insert lookups.size name, lookups.numbers.insert name (.ofNat lookups.size)⟩
      (listed ++ [name]) := by
  have number : (UInt16.ofNat lookups.size).toNat = listed.length := by
    rw [lists.size, UInt16.toNat_ofNat_of_lt' (by simpa [UInt16.size] using Nat.lt_succ_of_le room)]
  refine ⟨?_, ?_, ?_, ?_⟩
  · rw [List.length_append, List.length_singleton]
    omega
  · have absent : lookups.names.contains lookups.size = false := by
      rw [Std.TreeMap.contains_eq_isSome_getElem?, lists.names, lists.size]
      simp
    show (lookups.names.insert lookups.size name).size = _
    rw [Std.TreeMap.size_insert, absent, List.length_append, List.length_singleton, ← lists.size]
    rfl
  · intro index
    simp only [Std.TreeMap.getElem?_insert, lists.names, lists.size, Nat.compare_eq_eq]
    grind
  · intro other otherNumber
    show (lookups.numbers.insert name (.ofNat lookups.size))[other]? = _ ↔ _
    rw [Std.TreeMap.getElem?_insert]
    split
    · rename_i same
      cases Std.LawfulEqOrd.eq_of_compare same
      constructor
      · intro isNumber
        cases isNumber
        rw [number, List.getElem?_concat_length]
      · intro found
        have bound := (List.getElem?_eq_some_iff.mp found).1
        rw [List.length_append, List.length_singleton] at bound
        have atEnd : otherNumber.toNat = listed.length := by
          by_contra before
          rw [List.getElem?_append_left (by omega)] at found
          exact fresh (List.mem_of_getElem? found)
        exact congrArg some (UInt16.toNat_inj.mp (number.trans atEnd.symm))
    · rename_i different
      rw [← number?, lists.numbers, List.getElem?_append]
      split
      · rfl
      · rename_i beyond
        rw [List.getElem?_eq_none (Nat.le_of_not_lt beyond)]
        simp only [reduceCtorEq, false_iff, List.getElem?_singleton]
        split
        · intro same
          cases same
          exact different Std.ReflOrd.compare_self
        · exact fun same => by cases same

theorem eq_of_number? (lists : lookups.Lists listed) (one : lookups.number? name = some number)
    (two : lookups.number? other = some number) : name = other := by
  rw [lists.numbers] at one two
  exact Option.some.inj (one.symm.trans two)

theorem number?_eq_idxOf? (lists : lookups.Lists listed) (name : String) :
    (lookups.number? name).map UInt16.toNat = listed.idxOf? name := by
  cases found : lookups.number? name with
  | none => exact (List.idxOf?_eq_none_iff.mpr (lists.unregistered.mp found)).symm
  | some number =>
    obtain ⟨bound, there⟩ := List.getElem?_eq_some_iff.mp ((lists.numbers name number).mp found)
    refine (List.idxOf?_eq_some_iff.mpr ⟨bound, there, ?_⟩).symm
    intro earlier before same
    exact List.pairwise_iff_getElem.mp lists.nodup _ _ (Nat.lt_trans before bound) bound before (same.trans there.symm)

variable {later : LookupNames} {more : List String}

theorem number?_grown (lists : lookups.Lists listed) (grown : later.Lists (listed ++ more))
    (found : lookups.number? name = some number) : later.number? name = some number := by
  rw [lists.numbers] at found
  rw [grown.numbers, List.getElem?_append_left (List.getElem?_eq_some_iff.mp found).1, found]

theorem unregistered_of_grown (lists : lookups.Lists listed) (grown : later.Lists (listed ++ more))
    (absent : later.number? name = none) : lookups.number? name = none := by
  cases found : lookups.number? name with
  | none => rfl
  | some number => cases absent.symm.trans (lists.number?_grown grown found)

theorem number?_eq (lists : lookups.Lists listed) (others : later.Lists listed) (name : String) :
    later.number? name = lookups.number? name := by
  have grown : later.Lists (listed ++ []) := by rwa [List.append_nil]
  cases found : lookups.number? name with
  | none =>
    rw [lists.unregistered] at found
    exact others.unregistered.mpr found
  | some number => exact lists.number?_grown grown found

/-- What resolves keeps resolving, and to the same number unless it is shadowed. -/
theorem resolve_grown (lists : lookups.Lists listed) (grown : later.Lists (listed ++ more))
    (resolved : lookups.resolve owner name = .ok number) :
    ∃ next, later.resolve owner name = .ok next ∧ (next = number ↔ ¬lookups.Shadowed later owner name) := by
  unfold resolve at resolved
  split at resolved
  · rename_i number found
    cases resolved
    refine ⟨number, by rw [resolve, lists.number?_grown grown found], ?_⟩
    simp only [Shadowed, found, reduceCtorEq, false_and, not_false_eq_true]
  · rename_i absent
    split at resolved
    · rename_i bare found
      cases resolved
      have bareLater := lists.number?_grown grown found
      cases within : later.number? (owner ++ "." ++ name) with
      | none => exact ⟨number, by rw [resolve, within, bareLater], by simp [Shadowed, within]⟩
      | some shadow =>
        refine ⟨shadow, by rw [resolve, within], ?_⟩
        simp only [Shadowed, absent, within, ne_eq, reduceCtorEq, not_false_eq_true, and_self, not_true_eq_false,
          iff_false]
        rintro rfl
        -- Two names of one number would be the same, but the scoped one is longer.
        have same := congrArg String.length (grown.eq_of_number? within bareLater)
        simp only [String.length_append] at same
        have dot : ".".length = 1 := rfl
        omega
    · cases resolved

end Lists

/-- The outcome is the number that the name then has. -/
theorem register_number (lookups : LookupNames) (table : TableKind) (name : String) :
    (lookups.register table name).1.toOption = (lookups.register table name).2.number? name := by
  unfold register
  split
  · rename_i found
    exact found.symm
  · rename_i absent
    split
    · exact Std.TreeMap.getElem?_insert_self.symm
    · exact absent.symm

/-- A name that is registered already keeps its number; a new one gets the next, as long as there is one. -/
theorem register_lists {lookups : LookupNames} {listed : List String} (lists : lookups.Lists listed)
    (step : lookups.register table name = (outcome, next)) :
    (name ∈ listed ∧ next = lookups ∧ ∃ number, outcome = .ok number ∧ listed[number.toNat]? = some name) ∨
    (name ∉ listed ∧ next.Lists (listed ++ [name]) ∧ ∃ number, outcome = .ok number ∧ number.toNat = listed.length) ∨
    (name ∉ listed ∧ next = lookups ∧ listed.length = 65536 ∧ outcome = .error (.unknownLookup table.text name)) := by
  unfold register at step
  split at step
  · rename_i number found
    cases step
    have there := (lists.numbers name number).mp found
    exact .inl ⟨List.mem_of_getElem? there, rfl, number, rfl, there⟩
  · rename_i absent
    have fresh := lists.unregistered.mp absent
    rw [lists.size] at step
    split at step
    · rename_i room
      cases step
      refine .inr (.inl ⟨fresh, lists.size ▸ lists.concat fresh room, _, rfl, ?_⟩)
      rw [UInt16.toNat_ofNat_of_lt' (by simpa [UInt16.size] using Nat.lt_succ_of_le room)]
    · rename_i full
      cases step
      exact .inr (.inr ⟨fresh, rfl, Nat.le_antisymm lists.counted (by omega), rfl⟩)

end LookupNames

end Kashida
