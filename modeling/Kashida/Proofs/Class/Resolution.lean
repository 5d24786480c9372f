import Kashida.Proofs.Class.Memory

/-! What names stand for. A class stands for what its members stand for, and only a name that is no class can be a
glyph, a code or a pattern. -/
namespace Kashida

namespace GlyphOrder

/-- A name that is no class stands for a glyph: by being its name, else by being its code, else by being a pattern that
accepts a name of it. -/
inductive StandsFor (order : GlyphOrder) (dialect : PatternDialect) (name : String) (glyph : GlyphId) : Prop
  | named (found : order.id? name = some glyph)
  | coded (unnamed : order.id? name = none) (code : glyphCode? name = some glyph)
      (known : (order.name? glyph).isSome)
  | matched (unnamed : order.id? name = none) (uncoded : glyphCode? name = none) (valid : dialect name = some accepts)
      (accepted : accepts other = true) (found : order.id? other = some glyph)

/-- Why a name that is no class stands for nothing: it is a code that no glyph has, or neither name nor code and also no
pattern, or a pattern that accepts no name. -/
inductive StandsForNothing (order : GlyphOrder) (dialect : PatternDialect) (name : String) : ResolveError → Prop
  | code (unnamed : order.id? name = none) (code : glyphCode? name = some glyph) (unknown : order.name? glyph = none) :
      StandsForNothing order dialect name (.unknownGlyphId glyph)
  | invalid (unnamed : order.id? name = none) (uncoded : glyphCode? name = none) (invalid : dialect name = none) :
      StandsForNothing order dialect name (.badPattern name)
  | unmatched (unnamed : order.id? name = none) (uncoded : glyphCode? name = none)
      (valid : dialect name = some accepts) (refused : ∀ other, (order.id? other).isSome → accepts other = false) :
      StandsForNothing order dialect name (.emptyClass name)

variable {order : GlyphOrder} {dialect : PatternDialect} {name : String}

theorem mem_filter_toList_iff {accepts : String → Bool} {glyph : GlyphId} :
    glyph ∈ (order.toList.filter fun (name, _) => accepts name).map Prod.snd ↔
      ∃ other, accepts other = true ∧ order.id? other = some glyph := by
  simp [toList, id?, Std.TreeMap.mem_toList_iff_getElem?_eq_some, and_comm]

theorem standsFor_named {glyph other : GlyphId} (found : order.id? name = some glyph) :
    order.StandsFor dialect name other ↔ other = glyph := by
  constructor
  · intro stands
    cases stands with
    | named again => exact Option.some.inj (again.symm.trans found)
    | coded unnamed => cases unnamed.symm.trans found
    | matched unnamed => cases unnamed.symm.trans found
  · rintro rfl
    exact .named found

theorem standsFor_coded {glyph other : GlyphId} (unnamed : order.id? name = none)
    (code : glyphCode? name = some glyph) :
    order.StandsFor dialect name other ↔ other = glyph ∧ (order.name? glyph).isSome := by
  constructor
  · intro stands
    cases stands with
    | named found => cases unnamed.symm.trans found
    | coded _ again known =>
      cases again.symm.trans code
      exact ⟨rfl, known⟩
    | matched _ uncoded => cases uncoded.symm.trans code
  · rintro ⟨rfl, known⟩
    exact .coded unnamed code known

theorem standsFor_matched {glyph : GlyphId} (unnamed : order.id? name = none) (uncoded : glyphCode? name = none) :
    order.StandsFor dialect name glyph ↔
      ∃ accepts, dialect name = some accepts ∧ ∃ other, accepts other = true ∧ order.id? other = some glyph := by
  constructor
  · intro stands
    cases stands with
    | named found => cases unnamed.symm.trans found
    | coded _ code => cases uncoded.symm.trans code
    | matched _ _ valid accepted found => exact ⟨_, valid, _, accepted, found⟩
  · rintro ⟨accepts, valid, other, accepted, found⟩
    exact .matched unnamed uncoded valid accepted found

theorem matchPattern_ok {set : GlyphSet} (matched : order.matchPattern dialect name = .ok set) :
    ∃ accepts, dialect name = some accepts ∧ (∃ glyph, glyph ∈ set) ∧
      ∀ glyph, glyph ∈ set ↔ ∃ other, accepts other = true ∧ order.id? other = some glyph := by
  unfold matchPattern at matched
  split at matched
  · cases matched
  · rename_i accepts valid
    split at matched
    · cases matched
    · rename_i nonempty
      cases matched
      obtain ⟨glyph, member⟩ := List.exists_mem_of_ne_nil _ nonempty
      refine ⟨accepts, valid, ⟨glyph, GlyphSet.mem_ofList.mpr member⟩, fun glyph => ?_⟩
      rw [GlyphSet.mem_ofList, mem_filter_toList_iff]

theorem matchPattern_error {error : ResolveError} (failed : order.matchPattern dialect name = .error error) :
    dialect name = none ∧ error = .badPattern name ∨ ∃ accepts, dialect name = some accepts ∧
      error = .emptyClass name ∧ ∀ other, (order.id? other).isSome → accepts other = false := by
  unfold matchPattern at failed
  split at failed
  · rename_i invalid
    cases failed
    exact .inl ⟨invalid, rfl⟩
  · rename_i accepts valid
    split at failed
    · rename_i none
      cases failed
      refine .inr ⟨accepts, valid, rfl, fun other isName => Bool.eq_false_iff.mpr fun accepted => ?_⟩
      obtain ⟨glyph, found⟩ := Option.isSome_iff_exists.mp isName
      have member := mem_filter_toList_iff.mpr ⟨other, accepted, found⟩
      rw [none] at member
      cases member
    · cases failed

/-- A leaf that resolves stands for something, and its set has all that it stands for. -/
theorem resolveLeaf_ok {set : GlyphSet} (resolved : order.resolveLeaf dialect name = .ok set) :
    (∃ glyph, order.StandsFor dialect name glyph) ∧ ∀ glyph, glyph ∈ set ↔ order.StandsFor dialect name glyph := by
  unfold resolveLeaf at resolved
  split at resolved
  · rename_i id found
    cases resolved
    refine ⟨⟨id, .named found⟩, fun glyph => ?_⟩
    rw [GlyphSet.mem_ofList, List.mem_singleton, standsFor_named found]
  · rename_i unnamed
    split at resolved
    · rename_i id code
      split at resolved
      · rename_i known
        cases resolved
        have known : (order.name? id).isSome := by rw [known]; rfl
        refine ⟨⟨id, .coded unnamed code known⟩, fun glyph => ?_⟩
        rw [GlyphSet.mem_ofList, List.mem_singleton, standsFor_coded unnamed code]
        exact (and_iff_left known).symm
      · cases resolved
    · rename_i uncoded
      obtain ⟨accepts, valid, ⟨glyph, member⟩, members⟩ := matchPattern_ok resolved
      have same : ∀ glyph, glyph ∈ set ↔ order.StandsFor dialect name glyph := by
        intro glyph
        simp [members, standsFor_matched unnamed uncoded, valid]
      exact ⟨⟨glyph, (same glyph).mp member⟩, same⟩

theorem resolveLeaf_error {error : ResolveError} (failed : order.resolveLeaf dialect name = .error error) :
    order.StandsForNothing dialect name error ∧ ∀ glyph, ¬order.StandsFor dialect name glyph := by
  unfold resolveLeaf at failed
  split at failed
  · cases failed
  · rename_i unnamed
    split at failed
    · rename_i id code
      split at failed
      · cases failed
      · rename_i unknown
        cases failed
        refine ⟨.code unnamed code unknown, fun glyph => ?_⟩
        simp [standsFor_coded unnamed code, unknown]
    · rename_i uncoded
      rcases matchPattern_error failed with ⟨invalid, rfl⟩ | ⟨accepts, valid, rfl, refused⟩
      · refine ⟨.invalid unnamed uncoded invalid, fun glyph => ?_⟩
        simp [standsFor_matched unnamed uncoded, invalid]
      · refine ⟨.unmatched unnamed uncoded valid refused, fun glyph => ?_⟩
        rw [standsFor_matched unnamed uncoded]
        rintro ⟨others, again, other, accepted, found⟩
        cases valid.symm.trans again
        have isRefused := refused other (by rw [found]; rfl)
        rw [accepted] at isRefused
        cases isRefused

end GlyphOrder

open ClassMap

/-- A name resolves exactly if no class that it reaches is cyclic and every leaf that it reaches stands for something,
and then to all that these leaves stand for. Otherwise the error is that of a cyclic class or of a leaf that it
reaches. -/
theorem ClassTable.resolve_gives_reached_glyphs (classes : ClassMap) (order : GlyphOrder) (dialect : PatternDialect)
    (name : String) :
    ((∃ set, (resolve ⟨classes, ∅⟩ order dialect name).1 = .ok set) ↔
      (∀ other, classes.Reaches name other → ¬classes.Cyclic other) ∧
      ∀ other, classes.Reaches name other → other ∉ classes → ∃ glyph, order.StandsFor dialect other glyph) ∧
    (∀ set, (resolve ⟨classes, ∅⟩ order dialect name).1 = .ok set → ∀ glyph, glyph ∈ set ↔
      ∃ other, classes.Reaches name other ∧ other ∉ classes ∧ order.StandsFor dialect other glyph) ∧
    ∀ error, (resolve ⟨classes, ∅⟩ order dialect name).1 = .error error →
      (∃ other, classes.Reaches name other ∧ other ∈ classes ∧ classes.Cyclic other ∧ error = .cyclicClass other) ∨
      ∃ other, classes.Reaches name other ∧ other ∉ classes ∧ order.StandsForNothing dialect other error := by
  have forgetful : (ClassTable.mk classes ∅).classes.Remembers (order.resolveLeaf dialect)
      (ClassTable.mk classes ∅).memo := .empty
  rw [(resolve_faithful name forgetful).1]
  have leaves : ∀ other, (∃ set, order.resolveLeaf dialect other = .ok set) ↔
      ∃ glyph, order.StandsFor dialect other glyph := by
    intro other
    cases resolved : order.resolveLeaf dialect other with
    | ok set => simp [(GlyphOrder.resolveLeaf_ok resolved).1]
    | error error => simp [(GlyphOrder.resolveLeaf_error resolved).2]
  refine ⟨?_, ?_, ?_⟩
  · rw [exists_expand_iff]
    constructor
    · intro resolvable
      exact ⟨resolvable.acyclic, fun other path isLeaf => (leaves other).mp (resolvable.leaves other path isLeaf)⟩
    · rintro ⟨acyclic, stand⟩
      exact ⟨acyclic, fun _ _ isClass => isClass, fun other path isLeaf => (leaves other).mpr (stand other path isLeaf)⟩
  · intro set expanded glyph
    rw [mem_expand_iff expanded]
    constructor
    · rintro ⟨other, found, path, isLeaf, resolved, member⟩
      exact ⟨other, path, isLeaf, ((GlyphOrder.resolveLeaf_ok resolved).2 glyph).mp member⟩
    · rintro ⟨other, path, isLeaf, stands⟩
      obtain ⟨found, resolved⟩ := (leaves other).mpr ⟨glyph, stands⟩
      exact ⟨other, found, path, isLeaf, resolved, ((GlyphOrder.resolveLeaf_ok resolved).2 glyph).mpr stands⟩
  · intro error failed
    rcases error_expand failed with ⟨other, path, isClass, cyclic, same⟩ | ⟨other, path, isLeaf, failed⟩
    · exact .inl ⟨other, path, isClass, cyclic isClass, same⟩
    · exact .inr ⟨other, path, isLeaf, (GlyphOrder.resolveLeaf_error failed).1⟩

end Kashida
