import Kashida.Proofs.Class.Closure
import Mathlib.Data.List.Induction

/-! Remembered results. What is remembered under a name is what the name expands to with every class open, and so it
does not matter while which classes it was found or is used again: a class that is closed at that time is on the way
to the name, and if the name reached it there would be a cycle and nothing to remember. -/
namespace Kashida

namespace ClassMap

def Remembers (classes : ClassMap) (leaf : String → Except ResolveError GlyphSet) (memo : ClassMemo) : Prop :=
  ∀ name set, memo[name]? = some set → expand classes leaf classes name = .ok set

/-- Every closed class is on the way to the name. -/
def Leads (classes opened : ClassMap) (name : String) : Prop :=
  ∀ other ∈ classes, other ∉ opened → Relation.TransGen classes.HasMember other name

variable {classes opened : ClassMap} {leaf : String → Except ResolveError GlyphSet} {memo : ClassMemo}

theorem leads_start (name : String) : classes.Leads classes name :=
  fun _ isClass closed => absurd isClass closed

theorem Leads.member {name member : String} {members : List String} (leads : classes.Leads opened name)
    (found : classes[name]? = some members) (listed : member ∈ members) :
    classes.Leads (opened.erase name) member := by
  have last : classes.HasMember name member := ⟨members, found, listed⟩
  intro other isClass closed
  by_cases same : name = other
  · subst same
    exact .single last
  · have before : other ∉ opened := fun isOpen => closed (mem_erase_iff.mpr ⟨same, isOpen⟩)
    exact (leads other isClass before).tail last

theorem Resolvable.closing {name : String} (resolvable : classes.Resolvable leaf classes name)
    (leads : classes.Leads opened name) : classes.Resolvable leaf opened name := by
  refine ⟨resolvable.acyclic, ?_, resolvable.leaves⟩
  intro other path isClass
  by_contra closed
  have cyclic : classes.Cyclic other := (leads other isClass closed).trans_left path
  exact resolvable.acyclic other path cyclic

theorem Resolvable.opening {name : String} (resolvable : classes.Resolvable leaf opened name) :
    classes.Resolvable leaf classes name :=
  ⟨resolvable.acyclic, fun _ _ isClass => isClass, resolvable.leaves⟩

namespace Remembers

theorem empty : classes.Remembers leaf ∅ := by
  intro name set found
  rw [Std.TreeMap.getElem?_emptyc] at found
  cases found

theorem expand_eq {name : String} {set : GlyphSet} (remembers : classes.Remembers leaf memo)
    (found : memo[name]? = some set) (leads : classes.Leads opened name) :
    expand classes leaf opened name = .ok set := by
  have expanded := remembers name set found
  have resolvable := exists_expand_iff.mp ⟨set, expanded⟩
  rw [expand_congr (resolvable.closing leads) resolvable, expanded]

theorem insert {name : String} {set : GlyphSet} (remembers : classes.Remembers leaf memo)
    (expanded : expand classes leaf opened name = .ok set) : classes.Remembers leaf (memo.insert name set) := by
  intro other kept found
  rw [Std.TreeMap.getElem?_insert] at found
  split at found
  · rename_i same
    cases Std.LawfulEqOrd.eq_of_compare same
    cases found
    have resolvable := exists_expand_iff.mp ⟨set, expanded⟩
    rw [expand_congr resolvable.opening resolvable, expanded]
  · exact remembers other kept found

end Remembers

/-- Resolving goes as without memory, and leaves only what is right to remember. -/
def Faithful (classes : ClassMap) (leaf : String → Except ResolveError GlyphSet) (expected : Except ResolveError α)
    (result : Except ResolveError α × ClassMemo) : Prop :=
  result.1 = expected ∧ classes.Remembers leaf result.2

theorem resolveMembers_faithful {members : List String}
    (each : ∀ member ∈ members, ∀ memo, classes.Remembers leaf memo →
      classes.Faithful leaf (expand classes leaf opened member) (resolve classes leaf opened member memo))
    (remembers : classes.Remembers leaf memo) :
    classes.Faithful leaf ((members.mapM (expand classes leaf opened)).map (List.flatMap GlyphSet.toList))
      (resolveMembers classes leaf opened members memo) := by
  induction members generalizing memo with
  | nil =>
    rw [resolveMembers]
    exact ⟨rfl, remembers⟩
  | cons member members ih =>
    have first := each member List.mem_cons_self memo remembers
    rw [resolveMembers, List.mapM_cons]
    generalize resolve classes leaf opened member memo = here at first ⊢
    obtain ⟨outcome, next⟩ := here
    obtain ⟨rfl, remembers⟩ := first
    cases expanded : expand classes leaf opened member with
    | error error => exact ⟨rfl, remembers⟩
    | ok set =>
      have rest := ih (fun other listed => each other (List.mem_cons_of_mem _ listed)) remembers
      simp only
      generalize resolveMembers classes leaf opened members next = there at rest ⊢
      obtain ⟨outcome, last⟩ := there
      obtain ⟨rfl, remembers⟩ := rest
      cases members.mapM (expand classes leaf opened) with
      | error error => exact ⟨rfl, remembers⟩
      | ok sets => exact ⟨rfl, remembers⟩

theorem resolve_faithful (opened : ClassMap) (name : String) (memo : ClassMemo)
    (leads : classes.Leads opened name) (remembers : classes.Remembers leaf memo) :
    classes.Faithful leaf (expand classes leaf opened name) (resolve classes leaf opened name memo) := by
  rw [resolve]
  split
  · rename_i set found
    exact ⟨(remembers.expand_eq found leads).symm, remembers⟩
  · split
    · rename_i members found
      split
      · rename_i isOpen
        have below := resolveMembers_faithful (fun member listed memo =>
          resolve_faithful (opened.erase name) member memo (leads.member found listed)) remembers
        have whole : expand classes leaf opened name =
            (members.mapM (expand classes leaf (opened.erase name))).map GlyphSet.union := by
          rw [expand, found]
          simp only [isOpen, dif_pos]
        generalize resolveMembers classes leaf (opened.erase name) members memo = result at below ⊢
        obtain ⟨outcome, next⟩ := result
        obtain ⟨rfl, remembers⟩ := below
        cases expanded : members.mapM (expand classes leaf (opened.erase name)) with
        | error error =>
          rw [expanded] at whole
          exact ⟨whole.symm, remembers⟩
        | ok sets =>
          rw [expanded] at whole
          exact ⟨whole.symm, remembers.insert whole⟩
      · rename_i closed
        refine ⟨?_, remembers⟩
        rw [expand, found]
        simp only [closed, dif_neg, not_false_eq_true]
    · rename_i absent
      have same : expand classes leaf opened name = leaf name := expand_leaf absent
      split
      · rename_i set stands
        rw [stands] at same
        exact ⟨same.symm, remembers.insert same⟩
      · rename_i error fails
        rw [fails] at same
        exact ⟨same.symm, remembers⟩
termination_by opened.size
decreasing_by exact size_erase_lt ‹name ∈ opened›

end ClassMap

/-- What can be asked of a class table. -/
inductive ClassStep where
  | define (name : String) (members : List String)
  | resolve (name : String)
  | resolveAll (names : List String)

namespace ClassStep

def addTo (classes : ClassMap) : ClassStep → ClassMap
  | .define name members => classes.insert name members
  | .resolve _ | .resolveAll _ => classes

/-- The classes that steps define, whatever is asked in between. -/
def definitions (steps : List ClassStep) : ClassMap := steps.foldl addTo ∅

end ClassStep

namespace ClassTable

def take (order : GlyphOrder) (dialect : PatternDialect) (table : ClassTable) : ClassStep → ClassTable
  | .define name members => table.define name members
  | .resolve name => (table.resolve order dialect name).2
  | .resolveAll names => (table.resolveAll order dialect names).2

/-- The table after steps that start with nothing defined. -/
def session (order : GlyphOrder) (dialect : PatternDialect) (steps : List ClassStep) : ClassTable :=
  steps.foldl (take order dialect) {}

variable {order : GlyphOrder} {dialect : PatternDialect} {table : ClassTable}

theorem resolve_faithful (name : String) (remembers : table.classes.Remembers (order.resolveLeaf dialect) table.memo) :
    table.classes.Faithful (order.resolveLeaf dialect)
      (table.classes.expand (order.resolveLeaf dialect) table.classes name)
      ((table.resolve order dialect name).1, (table.resolve order dialect name).2.memo) :=
  ClassMap.resolve_faithful table.classes name table.memo (ClassMap.leads_start name) remembers

theorem resolveAll_faithful (names : List String)
    (remembers : table.classes.Remembers (order.resolveLeaf dialect) table.memo) :
    table.classes.Faithful (order.resolveLeaf dialect)
      ((names.mapM (table.classes.expand (order.resolveLeaf dialect) table.classes)).map GlyphSet.union)
      ((table.resolveAll order dialect names).1, (table.resolveAll order dialect names).2.memo) := by
  have each : ∀ name ∈ names, ∀ memo, table.classes.Remembers (order.resolveLeaf dialect) memo → _ :=
    fun name _ memo => ClassMap.resolve_faithful table.classes name memo (ClassMap.leads_start name)
  obtain ⟨outcome, remembersNext⟩ := ClassMap.resolveMembers_faithful each remembers
  refine ⟨?_, remembersNext⟩
  simp only [resolveAll, outcome]
  cases names.mapM (table.classes.expand (order.resolveLeaf dialect) table.classes) <;> rfl

/-- A step changes the classes by what it defines, and whatever is remembered after it is right for them. -/
theorem take_remembers (remembers : table.classes.Remembers (order.resolveLeaf dialect) table.memo)
    (step : ClassStep) : (table.take order dialect step).classes = step.addTo table.classes ∧
      (table.take order dialect step).classes.Remembers (order.resolveLeaf dialect)
        (table.take order dialect step).memo := by
  cases step with
  | define name members => exact ⟨rfl, .empty⟩
  | resolve name => exact ⟨rfl, (resolve_faithful name remembers).2⟩
  | resolveAll names => exact ⟨rfl, (resolveAll_faithful names remembers).2⟩

theorem session_remembers (order : GlyphOrder) (dialect : PatternDialect) (steps : List ClassStep) :
    (session order dialect steps).classes = ClassStep.definitions steps ∧
      (session order dialect steps).classes.Remembers (order.resolveLeaf dialect)
        (session order dialect steps).memo := by
  induction steps using List.reverseRecOn with
  | nil => exact ⟨rfl, .empty⟩
  | append_singleton steps step ih =>
    obtain ⟨defined, remembers⟩ := ih
    obtain ⟨definedNext, remembersNext⟩ := take_remembers remembers step
    rw [session, List.foldl_concat, ← session]
    refine ⟨?_, remembersNext⟩
    rw [definedNext, defined, ClassStep.definitions, ClassStep.definitions, List.foldl_concat]

/-- Whatever was defined and asked before, and whether it failed or not, a table answers like one that has the same
classes and remembers nothing. -/
theorem session_answers_like_forgetful (order : GlyphOrder) (dialect : PatternDialect) (steps : List ClassStep) :
    (∀ name, ((session order dialect steps).resolve order dialect name).1 =
      (resolve ⟨ClassStep.definitions steps, ∅⟩ order dialect name).1) ∧
    ∀ names, ((session order dialect steps).resolveAll order dialect names).1 =
      (resolveAll ⟨ClassStep.definitions steps, ∅⟩ order dialect names).1 := by
  obtain ⟨defined, remembers⟩ := session_remembers order dialect steps
  have forgetful : (ClassTable.mk (ClassStep.definitions steps) ∅).classes.Remembers (order.resolveLeaf dialect)
      (ClassTable.mk (ClassStep.definitions steps) ∅).memo := .empty
  constructor
  · intro name
    rw [(resolve_faithful name remembers).1, (resolve_faithful name forgetful).1, defined]
  · intro names
    rw [(resolveAll_faithful names remembers).1, (resolveAll_faithful names forgetful).1, defined]

end ClassTable

end Kashida
