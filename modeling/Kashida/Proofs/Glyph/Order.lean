import Kashida.Glyph.Order
import Mathlib.Data.List.Induction
import Mathlib.Data.List.Nodup
import Mathlib.Data.Prod.Basic

/-! The glyph order stays one-to-one. Naming a glyph can displace two pairs, that of the name and that of the number;
both leave both maps, so that no half of a pair is ever found alone. -/
namespace Kashida

namespace GlyphOrder

/-- Names and numbers are found from each other. -/
def OneToOne (order : GlyphOrder) : Prop := ∀ name id, order.id? name = some id ↔ order.name? id = some name

theorem id?_insert (order : GlyphOrder) (name : String) (id : GlyphId) (other : String) :
    (order.insert name id).id? other =
      if name = other then some id else if order.name? id = some other then none else order.id? other := by
  simp only [insert, id?, Std.TreeMap.getElem?_insert, Std.LawfulEqOrd.compare_eq_iff_eq]
  congr 1
  cases order.name? id with
  | none => simp
  | some old => simp [Std.TreeMap.getElem?_erase]

theorem name?_insert (order : GlyphOrder) (name : String) (id number : GlyphId) :
    (order.insert name id).name? number =
      if id = number then some name else if order.id? name = some number then none else order.name? number := by
  simp only [insert, name?, Std.TreeMap.getElem?_insert, Std.LawfulEqOrd.compare_eq_iff_eq]
  congr 1
  cases order.id? name with
  | none => simp
  | some old => simp [Std.TreeMap.getElem?_erase]

/-- A pair found after another was put into a map and displaced the old key of its value: it is the new pair, or an old
one that shares nothing with it. -/
theorem displace_eq_some_iff [DecidableEq α] {find : α → Option β} {back : β → Option α}
    (inverse : ∀ key value, find key = some value ↔ back value = some key) {key other : α} {value found : β} :
    (if key = other then some value else if back value = some other then none else find other) = some found ↔
      other = key ∧ found = value ∨ find other = some found ∧ other ≠ key ∧ found ≠ value := by
  by_cases same : key = other
  · subst same
    simp [eq_comm]
  · have different := Ne.symm same
    by_cases displaced : back value = some other
    · -- The old key of the value has that value only.
      have isOld := (inverse other value).mpr displaced
      simp [same, different, displaced, isOld, eq_comm]
    · have kept : find other = some found → found ≠ value := by
        rintro isFound rfl
        exact displaced ((inverse other found).mp isFound)
      simp only [if_neg same, if_neg displaced, different, false_and, false_or, ne_eq, not_false_eq_true, true_and]
      exact ⟨fun isFound => ⟨isFound, kept isFound⟩, fun both => both.1⟩

variable {order : GlyphOrder} {name other : String} {id number : GlyphId}

theorem OneToOne.id?_insert_eq_some_iff (oneToOne : order.OneToOne) :
    (order.insert name id).id? other = some number ↔
      other = name ∧ number = id ∨ order.id? other = some number ∧ other ≠ name ∧ number ≠ id := by
  rw [id?_insert]
  exact displace_eq_some_iff oneToOne

theorem OneToOne.name?_insert_eq_some_iff (oneToOne : order.OneToOne) :
    (order.insert name id).name? number = some other ↔
      number = id ∧ other = name ∨ order.name? number = some other ∧ number ≠ id ∧ other ≠ name := by
  rw [name?_insert]
  exact displace_eq_some_iff fun number name => (oneToOne name number).symm

theorem OneToOne.insert (oneToOne : order.OneToOne) (name : String) (id : GlyphId) :
    (order.insert name id).OneToOne := by
  intro other number
  rw [oneToOne.id?_insert_eq_some_iff, oneToOne.name?_insert_eq_some_iff, oneToOne other number,
    and_comm (a := other = name), and_comm (a := other ≠ name)]

theorem oneToOne_empty : OneToOne {} := by
  intro name id
  simp [id?, name?]

theorem ofList_concat (pairs : List (String × GlyphId)) (name : String) (id : GlyphId) :
    ofList (pairs ++ [(name, id)]) = (ofList pairs).insert name id := List.foldl_concat ..

theorem oneToOne_ofList (pairs : List (String × GlyphId)) : (ofList pairs).OneToOne := by
  induction pairs using List.reverseRecOn with
  | nil => exact oneToOne_empty
  | append_singleton pairs pair oneToOne =>
    rw [ofList_concat]
    exact oneToOne.insert pair.1 pair.2

theorem mem_toList_iff : (name, id) ∈ order.toList ↔ order.id? name = some id :=
  Std.TreeMap.mem_toList_iff_getElem?_eq_some

/-- A map lists no entry twice. -/
theorem nodup_entries [Ord α] [Std.TransOrd α] (map : Std.TreeMap α β) : map.toList.Nodup := by
  refine Std.TreeMap.distinct_keys_toList.imp ?_
  rintro one other different rfl
  exact different Std.ReflOrd.compare_self

/-- The map by number lists the same pairs, turned round. -/
theorem OneToOne.swap_perm (oneToOne : order.OneToOne) : (order.byId.toList.map Prod.swap).Perm order.toList := by
  have distinct := (nodup_entries order.byId).map Prod.swap_injective
  refine (List.perm_ext_iff_of_nodup distinct (nodup_entries order.byName)).mpr ?_
  rintro ⟨name, id⟩
  have listed : (name, id) ∈ order.byName.toList ↔ order.id? name = some id := mem_toList_iff
  rw [listed, oneToOne name id, name?, ← Std.TreeMap.mem_toList_iff_getElem?_eq_some]
  simp

theorem OneToOne.size_eq (oneToOne : order.OneToOne) : order.size = order.toList.length := by
  rw [← oneToOne.swap_perm.length_eq, List.length_map, Std.TreeMap.length_toList, size]

/-- After any history of naming glyphs, the names and numbers that are found from each other are the listed pairs, each
listed once and as many as the size says. Naming one more glyph leaves exactly the pairs that share neither its name nor
its number, and adds its own. -/
theorem named_glyphs_are_one_to_one (history : List (String × GlyphId)) :
    (∀ name id, (ofList history).id? name = some id ↔ (ofList history).name? id = some name) ∧
    (∀ name id, (name, id) ∈ (ofList history).toList ↔ (ofList history).id? name = some id) ∧
    (ofList history).toList.Nodup ∧ (ofList history).size = (ofList history).toList.length ∧
    ∀ name id pair, pair ∈ ((ofList history).insert name id).toList ↔
      pair = (name, id) ∨ pair ∈ (ofList history).toList ∧ pair.1 ≠ name ∧ pair.2 ≠ id := by
  have oneToOne := oneToOne_ofList history
  refine ⟨oneToOne, fun name id => mem_toList_iff, nodup_entries _, oneToOne.size_eq, ?_⟩
  rintro name id ⟨other, number⟩
  rw [mem_toList_iff, mem_toList_iff, oneToOne.id?_insert_eq_some_iff, Prod.mk.injEq]

-- The last pair displaces both others.
example : (ofList [("alef", 10), ("beh", 11), ("beh", 10)]).toList = [("beh", 10)] := by decide +kernel

end GlyphOrder

end Kashida
