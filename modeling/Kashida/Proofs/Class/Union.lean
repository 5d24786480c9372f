import Kashida.Font
import Kashida.Proofs.Class.Memory

/-! Names that are resolved together. Each of them stands for what it stands for alone, also if what is remembered does
not agree with the classes: a remembered name answers like a leaf, and with the remembered names as leaves all that is
remembered is right. -/
namespace Kashida

namespace ClassMap

/-- The classes without those that are remembered. -/
def unknown (classes : ClassMap) (known : ClassMemo) : ClassMap := classes.filter fun name _ => !known.contains name

/-- What a name stands for that is remembered or no class. -/
def knownOr (known : ClassMemo) (leaf : String → Except ResolveError GlyphSet) (name : String) :
    Except ResolveError GlyphSet :=
  match known[name]? with
  | some set => .ok set
  | none => leaf name

/-- Nothing of what is known has been forgotten. -/
def Keeps (known memo : ClassMemo) : Prop :=
  ∀ (name : String) (set : GlyphSet), known[name]? = some set → memo[name]? = some set

variable {classes opened others : ClassMap} {leaf : String → Except ResolveError GlyphSet} {known memo : ClassMemo}
  {name : String}

theorem unknown_of_none (fresh : known[name]? = none) : (classes.unknown known)[name]? = classes[name]? := by
  have absent : known.contains name = false := by
    rw [Std.TreeMap.contains_eq_isSome_getElem?, fresh, Option.isSome_none]
  rw [unknown, Std.TreeMap.getElem?_filter', absent]
  cases classes[name]? <;> rfl

theorem unknown_of_some {set : GlyphSet} (found : known[name]? = some set) :
    (classes.unknown known)[name]? = none := by
  have present : known.contains name = true := by
    rw [Std.TreeMap.contains_eq_isSome_getElem?, found, Option.isSome_some]
  rw [unknown, Std.TreeMap.getElem?_filter', present]
  cases classes[name]? <;> rfl

theorem knownOr_of_none (fresh : known[name]? = none) : knownOr known leaf name = leaf name := by
  rw [knownOr, fresh]

theorem Keeps.fresh (keeps : Keeps known memo) (absent : memo[name]? = none) : known[name]? = none := by
  cases found : known[name]? with
  | none => rfl
  | some set => cases absent.symm.trans (keeps name set found)

theorem Keeps.insert (keeps : Keeps known memo) (fresh : known[name]? = none) (set : GlyphSet) :
    Keeps known (memo.insert name set) := by
  intro other kept found
  have distinct : name ≠ other := by
    rintro rfl
    cases fresh.symm.trans found
  rw [Std.TreeMap.getElem?_insert, if_neg (by rwa [Std.LawfulEqOrd.compare_eq_iff_eq])]
  exact keeps other kept found

/-- With the known names as leaves, all that is known is right. -/
theorem remembers_known (classes : ClassMap) (leaf : String → Except ResolveError GlyphSet) (known : ClassMemo) :
    (classes.unknown known).Remembers (knownOr known leaf) known := by
  intro name set found
  rw [expand_leaf (unknown_of_some found), knownOr, found]

/-- The same classes are open, but for those that are known. -/
def OpenUnknown (known : ClassMemo) (opened others : ClassMap) : Prop :=
  ∀ name, known[name]? = none → (name ∈ others ↔ name ∈ opened)

theorem openUnknown_start : OpenUnknown known classes (classes.unknown known) := by
  intro name fresh
  simp only [Std.TreeMap.mem_iff_isSome_getElem?, unknown_of_none fresh]

theorem OpenUnknown.erase (same : OpenUnknown known opened others) :
    OpenUnknown known (opened.erase name) (others.erase name) := by
  intro other fresh
  rw [mem_erase_iff, mem_erase_iff, same other fresh]

/-- Resolving goes the same with the known names as leaves, and keeps what is known. -/
def Agrees (known : ClassMemo) (result other : α × ClassMemo) : Prop := other = result ∧ Keeps known result.2

theorem resolveMembers_agrees (members : List String)
    (each : ∀ member ∈ members, ∀ memo, Keeps known memo → Agrees known (resolve classes leaf opened member memo)
      (resolve (classes.unknown known) (knownOr known leaf) others member memo))
    (keeps : Keeps known memo) :
    Agrees known (resolveMembers classes leaf opened members memo)
      (resolveMembers (classes.unknown known) (knownOr known leaf) others members memo) := by
  induction members generalizing memo with
  | nil =>
    simp only [resolveMembers]
    exact ⟨rfl, keeps⟩
  | cons member members ih =>
    obtain ⟨same, keepsNext⟩ := each member List.mem_cons_self memo keeps
    simp only [resolveMembers, same]
    generalize resolve classes leaf opened member memo = here at keepsNext ⊢
    obtain ⟨outcome, next⟩ := here
    cases outcome with
    | error error => exact ⟨rfl, keepsNext⟩
    | ok set =>
      obtain ⟨same, keepsLast⟩ := ih (fun other listed => each other (List.mem_cons_of_mem _ listed)) keepsNext
      simp only [same]
      generalize resolveMembers classes leaf opened members next = there at keepsLast ⊢
      obtain ⟨outcome, last⟩ := there
      cases outcome <;> exact ⟨rfl, keepsLast⟩

theorem resolve_agrees (opened others : ClassMap) (name : String) (memo : ClassMemo)
    (same : OpenUnknown known opened others) (keeps : Keeps known memo) :
    Agrees known (resolve classes leaf opened name memo)
      (resolve (classes.unknown known) (knownOr known leaf) others name memo) := by
  rw [resolve, resolve]
  cases found : memo[name]? with
  | some set => exact ⟨rfl, keeps⟩
  | none =>
    have fresh := keeps.fresh found
    simp only [unknown_of_none fresh, knownOr_of_none fresh]
    cases classes[name]? with
    | some members =>
      by_cases isOpen : name ∈ opened
      · obtain ⟨below, keepsNext⟩ := resolveMembers_agrees members (fun member _ memo =>
          resolve_agrees (opened.erase name) (others.erase name) member memo same.erase) keeps
        simp only [isOpen, (same name fresh).mpr isOpen, dif_pos, below]
        generalize resolveMembers classes leaf (opened.erase name) members memo = result at keepsNext ⊢
        obtain ⟨outcome, next⟩ := result
        cases outcome with
        | error error => exact ⟨rfl, keepsNext⟩
        | ok glyphs => exact ⟨rfl, keepsNext.insert fresh _⟩
      · have closed : name ∉ others := fun isOpenThere => isOpen ((same name fresh).mp isOpenThere)
        simp only [isOpen, closed, dif_neg, not_false_eq_true]
        exact ⟨rfl, keeps⟩
    | none =>
      cases leaf name with
      | error error => exact ⟨rfl, keeps⟩
      | ok set => exact ⟨rfl, keeps.insert fresh set⟩
termination_by opened.size
decreasing_by exact size_erase_lt ‹name ∈ opened›

end ClassMap

namespace Font

open ClassMap

/-- What a name stands for, with the remembered names as leaves. -/
def expand (font : Font) : String → Except ResolveError GlyphSet :=
  let classes := font.classes.classes.unknown font.classes.memo
  ClassMap.expand classes (knownOr font.classes.memo (font.glyphs.resolveLeaf font.dialect)) classes

theorem resolve_eq_expand (font : Font) : font.resolve = font.expand := by
  funext name
  obtain ⟨same, _⟩ :=
    resolve_agrees font.classes.classes _ name font.classes.memo openUnknown_start fun _ _ found => found
  obtain ⟨outcome, _⟩ := resolve_faithful _ name _ (leads_start name)
    (remembers_known font.classes.classes (font.glyphs.resolveLeaf font.dialect) font.classes.memo)
  rw [same] at outcome
  exact outcome

/-- Without classes every name is a leaf. -/
theorem resolve_of_no_classes {font : Font} (none : font.classes = {}) :
    font.resolve = font.glyphs.resolveLeaf font.dialect := by
  have fresh : ∀ name : String, (∅ : ClassMemo)[name]? = .none := fun _ => Std.TreeMap.getElem?_emptyc
  have leaf : ∀ name : String, (ClassMap.unknown ∅ ∅)[name]? = .none := fun name => by
    rw [unknown_of_none (fresh name), Std.TreeMap.getElem?_emptyc]
  funext name
  rw [resolve_eq_expand, expand, none]
  exact (expand_leaf (leaf name)).trans (knownOr_of_none (fresh name))

theorem resolveAll_eq_mapM (font : Font) (names : List String) :
    font.resolveAll names = (names.mapM font.resolve).map GlyphSet.union := by
  obtain ⟨same, _⟩ := resolveMembers_agrees names (fun name _ memo keeps =>
    resolve_agrees font.classes.classes _ name memo openUnknown_start keeps) fun _ _ found => found
  have together : (font.classes.classes.resolveMembers (font.glyphs.resolveLeaf font.dialect) font.classes.classes
      names font.classes.memo).1 = (names.mapM font.expand).map (List.flatMap GlyphSet.toList) := by
    rw [← same]
    exact (resolveMembers_faithful (fun name _ memo => resolve_faithful _ name memo (leads_start name))
      (remembers_known _ _ _)).1
  rw [resolve_eq_expand, resolveAll, ClassTable.resolveAll]
  simp only [together]
  cases names.mapM font.expand <;> rfl

/-- The name resolves, and the glyph is one of those that it stands for. -/
def Denotes (font : Font) (name : String) (glyph : GlyphId) : Prop := ∃ set, font.resolve name = .ok set ∧ glyph ∈ set

theorem mem_resolveAll_iff {font : Font} {names : List String} {set : GlyphSet} {glyph : GlyphId}
    (resolved : font.resolveAll names = .ok set) : glyph ∈ set ↔ ∃ name ∈ names, font.Denotes name glyph := by
  rw [resolveAll_eq_mapM, map_eq_ok_iff] at resolved
  obtain ⟨sets, each, rfl⟩ := resolved
  rw [mapM_eq_ok_iff] at each
  rw [GlyphSet.mem_union]
  constructor
  · rintro ⟨set, inSets, inSet⟩
    obtain ⟨name, listed, stands⟩ := exists_of_forall₂ each inSets
    exact ⟨name, listed, set, stands, inSet⟩
  · rintro ⟨name, listed, set, stands, inSet⟩
    obtain ⟨index, atName⟩ := List.mem_iff_getElem?.mp listed
    obtain ⟨found, atFound, stands'⟩ := exists_getElem?_of_forall₂ each atName
    cases stands.symm.trans stands'
    exact ⟨set, List.mem_of_getElem? atFound, inSet⟩

end Font

end Kashida
