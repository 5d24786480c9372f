import Kashida.Class.Table
import Kashida.Proofs.Fallible
import Mathlib.Logic.Relation

/-! Classes as a graph of names, and what a name stands for in it: the glyphs of all leaves that it reaches, unless it
reaches a cycle or a leaf that stands for nothing. -/
namespace Kashida.ClassMap

/-- The class `name` has this member. -/
def HasMember (classes : ClassMap) (name member : String) : Prop :=
  ∃ members, classes[name]? = some members ∧ member ∈ members

def Reaches (classes : ClassMap) : String → String → Prop := Relation.ReflTransGen classes.HasMember

/-- A class that reaches itself through its members. -/
def Cyclic (classes : ClassMap) (name : String) : Prop := Relation.TransGen classes.HasMember name name

/-- Resolves a name without remembering anything. -/
def expand (classes : ClassMap) (leaf : String → Except ResolveError GlyphSet) (opened : ClassMap) (name : String) :
    Except ResolveError GlyphSet :=
  match classes[name]? with
  | some members =>
      if _h : name ∈ opened then
        (members.mapM fun member => expand classes leaf (opened.erase name) member).map GlyphSet.union
      else .error (.cyclicClass name)
  | none => leaf name
termination_by opened.size
decreasing_by exact size_erase_lt _h

/-- All that a name reaches is open and not cyclic if it is a class, and stands for something if it is a leaf. -/
structure Resolvable (classes : ClassMap) (leaf : String → Except ResolveError GlyphSet) (opened : ClassMap)
    (name : String) : Prop where
  acyclic : ∀ other, classes.Reaches name other → ¬classes.Cyclic other
  opened : ∀ other, classes.Reaches name other → other ∈ classes → other ∈ opened
  leaves : ∀ other, classes.Reaches name other → other ∉ classes → ∃ set, leaf other = .ok set

variable {classes opened : ClassMap} {leaf : String → Except ResolveError GlyphSet} {name : String}

theorem mem_of_getElem? {members : List String} (found : classes[name]? = some members) : name ∈ classes := by
  rw [Std.TreeMap.mem_iff_isSome_getElem?, found]
  rfl

theorem not_mem_iff : name ∉ classes ↔ classes[name]? = none := by
  rw [Std.TreeMap.mem_iff_isSome_getElem?, Option.not_isSome_iff_eq_none]

theorem mem_erase_iff {other : String} : other ∈ opened.erase name ↔ name ≠ other ∧ other ∈ opened := by
  rw [Std.TreeMap.mem_erase, ne_eq, ne_eq, Std.LawfulEqOrd.compare_eq_iff_eq]

theorem HasMember.mem {member : String} (listed : classes.HasMember name member) : name ∈ classes := by
  obtain ⟨members, found, _⟩ := listed
  exact mem_of_getElem? found

theorem Cyclic.mem (cyclic : classes.Cyclic name) : name ∈ classes := by
  obtain ⟨member, listed, _⟩ := Relation.TransGen.head'_iff.mp cyclic
  exact listed.mem

theorem reaches_class_iff {members : List String} (found : classes[name]? = some members) {other : String} :
    classes.Reaches name other ↔ name = other ∨ ∃ member ∈ members, classes.Reaches member other := by
  have listed : ∀ member, classes.HasMember name member ↔ member ∈ members := by
    intro member
    simp [HasMember, found]
  simp only [Reaches, Relation.ReflTransGen.cases_head_iff (a := name), listed]

theorem reaches_leaf_iff (absent : classes[name]? = none) {other : String} :
    classes.Reaches name other ↔ name = other := by
  have unlisted : ∀ member, ¬classes.HasMember name member := by
    intro member
    simp [HasMember, absent]
  simp only [Reaches, Relation.ReflTransGen.cases_head_iff (a := name), unlisted, false_and, exists_false, or_false]

theorem cyclic_of_member {members : List String} {member : String} (found : classes[name]? = some members)
    (listed : member ∈ members) (back : classes.Reaches member name) : classes.Cyclic name :=
  Relation.TransGen.head'_iff.mpr ⟨member, ⟨members, found, listed⟩, back⟩

/-- A class is resolvable exactly if its members are once it is closed: to get back to it would be a cycle. -/
theorem resolvable_class_iff {members : List String} (found : classes[name]? = some members) (isOpen : name ∈ opened) :
    classes.Resolvable leaf opened name ↔ ∀ member ∈ members, classes.Resolvable leaf (opened.erase name) member := by
  have whole : ∀ {other}, (∃ member ∈ members, classes.Reaches member other) → classes.Reaches name other :=
    fun below => (reaches_class_iff found).mpr (.inr below)
  constructor
  · intro resolvable member listed
    refine ⟨fun other path => resolvable.acyclic other (whole ⟨member, listed, path⟩), ?_,
      fun other path => resolvable.leaves other (whole ⟨member, listed, path⟩)⟩
    intro other path isClass
    refine mem_erase_iff.mpr ⟨?_, resolvable.opened other (whole ⟨member, listed, path⟩) isClass⟩
    rintro rfl
    exact resolvable.acyclic name .refl (cyclic_of_member found listed path)
  · intro each
    have acyclic : ¬classes.Cyclic name := by
      intro cyclic
      obtain ⟨member, ⟨others, again, listed⟩, back⟩ := Relation.TransGen.head'_iff.mp cyclic
      cases found.symm.trans again
      exact (mem_erase_iff.mp ((each member listed).opened name back (mem_of_getElem? found))).1 rfl
    constructor
    · intro other path
      rcases (reaches_class_iff found).mp path with rfl | ⟨member, listed, below⟩
      · exact acyclic
      · exact (each member listed).acyclic other below
    · intro other path isClass
      rcases (reaches_class_iff found).mp path with rfl | ⟨member, listed, below⟩
      · exact isOpen
      · exact (mem_erase_iff.mp ((each member listed).opened other below isClass)).2
    · intro other path isLeaf
      rcases (reaches_class_iff found).mp path with rfl | ⟨member, listed, below⟩
      · exact absurd (mem_of_getElem? found) isLeaf
      · exact (each member listed).leaves other below isLeaf

theorem resolvable_leaf_iff (absent : classes[name]? = none) :
    classes.Resolvable leaf opened name ↔ ∃ set, leaf name = .ok set := by
  constructor
  · intro resolvable
    exact resolvable.leaves name .refl (not_mem_iff.mpr absent)
  · intro stands
    constructor
    · intro other path cyclic
      cases (reaches_leaf_iff absent).mp path
      exact not_mem_iff.mpr absent cyclic.mem
    · intro other path isClass
      cases (reaches_leaf_iff absent).mp path
      exact absurd isClass (not_mem_iff.mpr absent)
    · intro other path _
      cases (reaches_leaf_iff absent).mp path
      exact stands

theorem expand_leaf (absent : classes[name]? = none) : expand classes leaf opened name = leaf name := by
  rw [expand, absent]

theorem exists_expand_iff :
    (∃ set, expand classes leaf opened name = .ok set) ↔ classes.Resolvable leaf opened name := by
  fun_induction expand classes leaf opened name with
  | case1 opened name members found isOpen ih =>
    simp only [resolvable_class_iff found isOpen, ← ih, ← exists_forall₂_iff, map_eq_ok_iff, mapM_eq_ok_iff]
    constructor
    · rintro ⟨set, sets, each, _⟩
      exact ⟨sets, each⟩
    · rintro ⟨sets, each⟩
      exact ⟨_, sets, each, rfl⟩
  | case2 opened name members found closed =>
    simp only [reduceCtorEq, exists_false, false_iff]
    intro resolvable
    exact closed (resolvable.opened name .refl (mem_of_getElem? found))
  | case3 opened name absent => rw [resolvable_leaf_iff absent]

theorem mem_expand_iff {set : GlyphSet} {glyph : GlyphId} (expanded : expand classes leaf opened name = .ok set) :
    glyph ∈ set ↔ ∃ other found, classes.Reaches name other ∧ other ∉ classes ∧ leaf other = .ok found ∧
      glyph ∈ found := by
  fun_induction expand classes leaf opened name generalizing set with
  | case1 opened name members found isOpen ih =>
    simp only [map_eq_ok_iff, mapM_eq_ok_iff] at expanded
    obtain ⟨sets, each, rfl⟩ := expanded
    rw [GlyphSet.mem_union]
    constructor
    · rintro ⟨set, inSets, inSet⟩
      obtain ⟨member, listed, expanded⟩ := exists_of_forall₂ each inSets
      obtain ⟨other, glyphs, path, rest⟩ := (ih member expanded).mp inSet
      exact ⟨other, glyphs, (reaches_class_iff found).mpr (.inr ⟨member, listed, path⟩), rest⟩
    · rintro ⟨other, glyphs, path, isLeaf, rest⟩
      rcases (reaches_class_iff found).mp path with rfl | ⟨member, listed, below⟩
      · exact absurd (mem_of_getElem? found) isLeaf
      · obtain ⟨index, atMember⟩ := List.mem_iff_getElem?.mp listed
        obtain ⟨set, atSet, expanded⟩ := exists_getElem?_of_forall₂ each atMember
        exact ⟨set, List.mem_of_getElem? atSet, (ih member expanded).mpr ⟨other, glyphs, below, isLeaf, rest⟩⟩
  | case2 opened name members found closed => cases expanded
  | case3 opened name absent => simp [reaches_leaf_iff absent, not_mem_iff.mpr absent, expanded]

/-- A failure is that of a leaf, or of a class that is closed already or cyclic. -/
theorem error_expand {error : ResolveError} (failed : expand classes leaf opened name = .error error) :
    (∃ other, classes.Reaches name other ∧ other ∈ classes ∧ (other ∈ opened → classes.Cyclic other) ∧
      error = .cyclicClass other) ∨
    ∃ other, classes.Reaches name other ∧ other ∉ classes ∧ leaf other = .error error := by
  fun_induction expand classes leaf opened name with
  | case1 opened name members found isOpen ih =>
    obtain ⟨member, listed, failed⟩ := exists_of_mapM_error (map_eq_error_iff.mp failed)
    have above : ∀ {other}, classes.Reaches member other → classes.Reaches name other :=
      fun below => (reaches_class_iff found).mpr (.inr ⟨member, listed, below⟩)
    rcases ih member failed with ⟨other, below, isClass, closed, rfl⟩ | ⟨other, below, isLeaf, failed⟩
    · refine .inl ⟨other, above below, isClass, fun stillOpen => ?_, rfl⟩
      -- The class itself is closed for its members, and to come back to it is a cycle.
      by_cases same : name = other
      · subst same
        exact cyclic_of_member found listed below
      · exact closed (mem_erase_iff.mpr ⟨same, stillOpen⟩)
    · exact .inr ⟨other, above below, isLeaf, failed⟩
  | case2 opened name members found closed =>
    cases failed
    exact .inl ⟨name, .refl, mem_of_getElem? found, fun isOpen => absurd isOpen closed, rfl⟩
  | case3 opened name absent => exact .inr ⟨name, .refl, not_mem_iff.mpr absent, failed⟩

/-- Where a name resolves, it does not matter which classes are closed. -/
theorem expand_congr {others : ClassMap} (here : classes.Resolvable leaf opened name)
    (there : classes.Resolvable leaf others name) :
    expand classes leaf opened name = expand classes leaf others name := by
  obtain ⟨set, expanded⟩ := exists_expand_iff.mpr here
  obtain ⟨other, expandedThere⟩ := exists_expand_iff.mpr there
  have same : set = other := by
    ext glyph
    rw [mem_expand_iff expanded, mem_expand_iff expandedThere]
  rw [expanded, expandedThere, same]

end Kashida.ClassMap
