import Kashida.Proofs.Provenance
import Kashida.Proofs.Variation.StoreReader

/-! What compiled cursive anchors mean: where an anchor is at rest, and how far it is from there at each end of the
elongation axes, as a reader of the compiled tables finds it. Bytes that a lookup brings from another compiler mean
nothing here, as their distances are in the store of that compiler. -/
namespace Kashida

/-- The row at an index says how far a coordinate moves: a column for each end of the axes that the limits reach, which
acts on the region of that end, and no other columns. -/
def VariationStore.Moves (store : VariationStore) (font : Font) (glyph : String) (limits : ElongationLimits)
    (index : DeltaSetIndex) (distance : LimitField → Int → Prop) : Prop :=
  ∃ row columns, store.row? index = some row ∧ row.Perm columns ∧
    List.Forall₂ (fun field column => ∃ peak delta, font.deltaSets.peak glyph limits field = .ok peak ∧
      distance field delta ∧ column = (Region.spans ⟨field.axis, peak⟩, delta)) limits.reached columns

/-- What a stored anchor says of one side of a glyph. It is absent where there is none. Otherwise it is at the place of
the anchor at rest; and it is variable exactly if variable anchors are on and the glyph has limits, and then the store
has its distances from there to its places at the ends of the axes. -/
def CursiveAttachment.Means (font : Font) (table : CursiveAttachment) (compiled : CompiledTables) (side : CursiveSide)
    (glyph : GlyphId) : Option Anchor → Prop
  | none => table.anchorAt font side glyph .zero .zero = .ok none
  | some anchor => table.anchorAt font side glyph .zero .zero = .ok (some anchor.point) ∧
      ∃ name, font.glyphName glyph = .ok name ∧ match anchor with
        | .fixed _ _ => ¬(font.options.variableAnchors = true ∧ (font.limits.get? name).isSome)
        | .variable x y xVariation yVariation =>
            font.options.variableAnchors = true ∧ ∃ limits bytes store, font.limits.get? name = some limits ∧
              compiled.store = some bytes ∧ VariationStore.read bytes = .ok store ∧
              store.Moves font name limits xVariation (fun field delta => ∃ point,
                table.anchorAt font side glyph (limits.reach field).1 (limits.reach field).2 = .ok (some point) ∧
                  delta = point.x - x.toInt) ∧
              store.Moves font name limits yVariation (fun field delta => ∃ point,
                table.anchorAt font side glyph (limits.reach field).1 (limits.reach field).2 = .ok (some point) ∧
                  delta = point.y - y.toInt)

theorem DeltaSets.Holds.nonempty {sets : DeltaSets} (held : sets.Holds glyph limits deltas index) :
    sets.isEmpty = false := by
  obtain ⟨row, _, recorded, _⟩ := held
  refine Std.TreeMap.isEmpty_eq_false_iff_exists_mem.mpr ⟨row, ?_⟩
  rw [Std.TreeMap.mem_iff_isSome_getElem?, recorded]
  rfl

/-- A row that was handed out moves a coordinate as it was measured. -/
theorem DeltaSets.Holds.moves {sets : DeltaSets} {distance : LimitField → Int → Prop} {atRest : Int}
    {ends : LimitField → Int} (held : sets.Holds glyph limits (.measured atRest ends) index) (valid : sets.Valid)
    (grown : font.deltaSets.Extends sets) (written : sets.encode = .ok bytes)
    (decoded : VariationStore.read bytes = .ok store) (far : ∀ field, distance field (ends field - atRest)) :
    store.Moves font glyph limits index distance := by
  obtain ⟨row, columns, found, same, carried⟩ := read_row? valid written decoded held
  rw [EndDeltas.moving_measured, List.forall₂_map_left_iff] at carried
  refine ⟨row, columns, found, same, carried.imp ?_⟩
  rintro field column ⟨peak, isPeak, isColumn⟩
  rw [grown.peak] at isPeak
  exact ⟨peak, _, isPeak, far field, isColumn⟩

namespace CursiveAttachment

theorem Attaches.means {compiler : Compiler} {table : CursiveAttachment} {anchor : Option Anchor}
    (attached : table.Attaches font side glyph compiler.sets anchor) (valid : compiler.sets.Valid)
    (grown : font.deltaSets.Extends compiler.sets) (gives : compiler.Gives compiled) :
    table.Means font compiled side glyph anchor := by
  cases anchor with
  | none => exact attached
  | some anchor =>
    obtain ⟨rest, name, position, named, same, realized⟩ := attached
    refine ⟨rest, name, named, ?_⟩
    cases realized with
    | fixed still =>
      rintro ⟨on, limited⟩
      rw [Font.varyingLimits?, if_pos on] at still
      rw [still] at limited
      cases limited
    | @«variable» limits xVariation yVariation x y ends varies reached xHeld yHeld =>
      unfold Font.varyingLimits? at varies
      split at varies
      · rename_i on
        -- A row was handed out, so there is a store.
        obtain ⟨bytes, stored, written⟩ := gives.store xHeld.nonempty
        have decoded := DeltaSets.read_encode valid written
        have at' : ∀ field, table.anchorAt font side glyph (limits.reach field).1 (limits.reach field).2 =
            .ok (some (ends field)) := by
          intro field
          rw [same, reached]
          rfl
        exact ⟨on, limits, bytes, _, varies, stored, decoded,
          xHeld.moves valid grown written decoded fun field => ⟨ends field, at' field, rfl⟩,
          yHeld.moves valid grown written decoded fun field => ⟨ends field, at' field, rfl⟩⟩
      · cases varies

/-- Without a store no variable anchor means anything. -/
theorem not_means_of_storeless {table : CursiveAttachment} (storeless : compiled.store = none) :
    ¬table.Means font compiled side glyph (some (.variable x y xVariation yVariation)) := by
  rintro ⟨_, _, _, _, _, _, _, _, isStore, _⟩
  cases storeless.symm.trans isStore

theorem Decodes.mono {before after : DeltaSets} {table : CursiveAttachment}
    (decodes : table.Decodes font before bytes) (grown : before.Extends after) : table.Decodes font after bytes := by
  obtain ⟨stored, reads, covered, each⟩ := decodes
  refine ⟨stored, reads, covered, fun side glyph member => ?_⟩
  obtain ⟨anchor, found, attached⟩ := each side glyph member
  exact ⟨anchor, found, Attaches.lasting font table side glyph _ _ _ grown attached⟩

theorem decodes_of_encodes {table : CursiveAttachment}
    (made : Subtable.Encodes font names owner (.cursive table) sets bytes) : table.Decodes font sets bytes := by
  obtain ⟨before, after, valid, run, grown⟩ := made
  have yields := (table.encode_yields font before valid).2.2 bytes
  have same : (table.encode font).run before = (.ok bytes, after) := run
  rw [same] at yields
  exact (yields rfl).mono grown

end CursiveAttachment

/-- After any session, the compiled tables of a cursive subtable cover its glyphs, and each side of each of them reads
back as what the anchor of that side is, unless its lookup was added with bytes that the session does not make. -/
theorem Compiler.compiled_cursive_anchors_mean_their_places (font : Font) (steps : List SessionStep)
    (compiled : CompiledTables) (success : (session font steps).compile.1 = .ok compiled) (kind : TableKind)
    (number : UInt16) (lookup : Lookup) (index : Nat) (table : CursiveAttachment)
    (found : ((session font steps).table kind).lookups[number]? = some lookup)
    (own : OwnBytes font steps kind lookup.name)
    (isCursive : lookup.subtable? index = some (.cursive table)) :
    ∃ bytes scope stored, (compiled.lookups kind)[number.toNat]? = some bytes ∧
      Lookup.subtableScope bytes index = .ok (some scope) ∧ StoredCursive.read scope = .ok stored ∧
      stored.glyphs = table.anchors.keys ∧ ∀ side, ∀ glyph ∈ table.anchors.keys, ∃ anchor,
        stored.anchor? side glyph = some anchor ∧ table.Means font compiled side glyph anchor := by
  obtain ⟨recompiled, gives⟩ := session_compile font steps
  have gives := gives compiled success
  have sound := session_sound font (steps ++ [.compile])
  obtain ⟨listed, orderly⟩ := sound.orderly kind
  -- The same subtable after the compilation, when all slots have bytes.
  obtain ⟨after, foundAfter, sameName, subtable⟩ := (recompiled.tables kind).subtable found isCursive
  obtain ⟨slot, atIndex, isTable⟩ := Option.map_eq_some_iff.mp subtable
  obtain ⟨bytes, atNumber, settled⟩ := orderly.gives (gives.lookups kind) foundAfter
  obtain ⟨content, origin, back, cached, scope⟩ := settled.scope atIndex
  have held : ((session font (steps ++ [.compile])).table kind).slot? number index =
      some (lookup.name, ⟨.cursive table, some content⟩) := by
    rw [LookupTable.slot?, foundAfter, Option.bind_some, atIndex, Option.map_some, sameName, ← isTable, ← cached]
  -- Its bytes may be those of an earlier compilation; they were made from this very subtable.
  obtain ⟨_, _, made⟩ := (own.compile.made held).encodes
  obtain ⟨stored, reads, covered, each⟩ := CursiveAttachment.decodes_of_encodes made
  refine ⟨bytes, _, stored, atNumber, scope, reads origin back, covered, fun side glyph member => ?_⟩
  obtain ⟨anchor, atGlyph, attached⟩ := each side glyph member
  exact ⟨anchor, atGlyph, attached.means sound.valid sound.grown gives⟩

/-- Two glyphs, one of which elongates to the left and carries its own anchor where it is widest. -/
def wideningFont : Font where
  glyphs := .ofList [("alef", 3), ("beh", 4)]
  shapes := fun glyph left _ =>
    some ⟨glyph, .zero, if left = .one then (∅ : Std.TreeMap String Point).insert "wide" ⟨900, -5⟩ else ∅⟩
  limits := LimitTable.insert {} "beh" ⟨.negOne, .one, .zero, .zero⟩

def wideningAttachment : CursiveAttachment where
  name := "wide"
  anchors := (∅ : Std.TreeMap GlyphId CursiveEnds).insert 3 ⟨some (.point ⟨10, 20⟩), none⟩
    |>.insert 4 ⟨none, some (.point ⟨-30, 40⟩)⟩

/-- A lookup whose anchors vary. -/
def joining (name : String) : Lookup := ⟨name, .cursiveAttachment, 0, none, [⟨.cursive wideningAttachment, none⟩]⟩

def raiseExit : Subtable → Subtable
  | .cursive table => .cursive (table.setAdjustment .exit 4 ⟨1, 1⟩)
  | other => other

/-- Compiles three times, once with a name that nothing was added for, and moves an anchor before the last. -/
def wideningSteps : List SessionStep :=
  [.add (joining "join"), .compile, .declare .positioning "later", .compile,
    .add ⟨"later", .cursiveAttachment, 0, none, []⟩, .change .positioning "join" 0 raiseExit, .compile]

/-- The compiled lookup is then added once more. -/
def wideningSession : List SessionStep :=
  wideningSteps ++ (Compiler.session wideningFont wideningSteps).reuse .positioning "join"

/-- The places read back after a failed compilation and a change of bytes that an earlier one made, from bytes that were
brought by a lookup of the session itself. -/
theorem Compiler.compiled_cursive_anchors_mean_their_places_after_failure :
    ∃ compiled lookup table, (session wideningFont wideningSession).compile.1 = .ok compiled ∧
      ((session wideningFont wideningSession).table .positioning).lookups[(0 : UInt16)]? = some lookup ∧
      lookup.isDirty = false ∧ OwnBytes wideningFont wideningSession .positioning lookup.name ∧
      lookup.subtable? 0 = some (.cursive table) ∧ table.anchors.keys = [3, 4] ∧
      ∃ bytes scope stored, (compiled.lookups .positioning)[0]? = some bytes ∧
        Lookup.subtableScope bytes 0 = .ok (some scope) ∧ StoredCursive.read scope = .ok stored ∧
        stored.glyphs = table.anchors.keys ∧ ∀ side, ∀ glyph ∈ table.anchors.keys, ∃ anchor,
          stored.anchor? side glyph = some anchor ∧ table.Means wideningFont compiled side glyph anchor := by
  have succeeds : (session wideningFont wideningSession).compile.1.isOk = true := by decide +kernel
  obtain ⟨compiled, success⟩ := exists_of_isOk succeeds
  have bare : Bare wideningSteps := by simp [Bare, wideningSteps, joining]
  have own : OwnBytes wideningFont wideningSession .positioning "join" := bare.ownBytes.reuse
  have covers : (((session wideningFont wideningSession).table .positioning).lookups[(0 : UInt16)]?.any fun lookup =>
      lookup.name == "join" && !lookup.isDirty && (lookup.subtable? 0).any
        fun | .cursive table => table.anchors.keys == [3, 4] | _ => false) = true := by
    decide +kernel
  generalize there : ((session wideningFont wideningSession).table .positioning).lookups[(0 : UInt16)]? = added
    at covers
  cases added with
  | none => cases covers
  | some lookup =>
    rw [Option.any_some] at covers
    simp only [Bool.and_eq_true, beq_iff_eq, Bool.not_eq_true'] at covers
    obtain ⟨⟨isJoin, encoded⟩, covers⟩ := covers
    rw [← isJoin] at own
    generalize isTable : lookup.subtable? 0 = subtable at covers
    cases subtable with
    | none => cases covers
    | some subtable =>
      cases subtable with
      | cursive table =>
        exact ⟨compiled, lookup, table, success, rfl, encoded, own, isTable, eq_of_beq covers,
          compiled_cursive_anchors_mean_their_places wideningFont wideningSession compiled success .positioning 0 lookup
            0 table there own isTable⟩
      | _ => cases covers

/-- A lookup that another compiler has compiled is added to a new one. -/
def transferredSession : List SessionStep :=
  (Compiler.session wideningFont [.add (joining "join"), .compile]).reuse .positioning "join"

/-- Bytes from another compiler refer to rows of a store that this one does not have. -/
theorem Compiler.transferred_cursive_anchor_lacks_its_store :
    ∃ compiled lookup table bytes scope stored anchor,
      (session wideningFont transferredSession).compile.1 = .ok compiled ∧ compiled.store = none ∧
      ((session wideningFont transferredSession).table .positioning).lookups[(0 : UInt16)]? = some lookup ∧
      lookup.subtable? 0 = some (.cursive table) ∧ (compiled.lookups .positioning)[0]? = some bytes ∧
      Lookup.subtableScope bytes 0 = .ok (some scope) ∧ StoredCursive.read scope = .ok stored ∧
      4 ∈ table.anchors.keys ∧ stored.anchor? .exit 4 = some anchor ∧
      ¬table.Means wideningFont compiled .exit 4 anchor := by
  have covers : (((session wideningFont transferredSession).table .positioning).lookups[(0 : UInt16)]?.bind
      fun lookup => lookup.subtable? 0).any
        (fun | .cursive table => table.anchors.keys == [3, 4] | _ => false) = true := by
    decide +kernel
  have varies : ((session wideningFont transferredSession).compile.1.toOption.any fun compiled =>
      compiled.store.isNone && compiled.positioning[0]?.any fun bytes =>
        (Lookup.subtableScope bytes 0).toOption.any fun found => found.any fun scope =>
          (StoredCursive.read scope).toOption.any fun stored => (stored.anchor? .exit 4).any fun anchor =>
            anchor.any fun | .variable .. => true | .fixed .. => false) = true := by
    decide +kernel
  obtain ⟨subtable, there, isCursive⟩ := (Option.any_eq_true _ _).mp covers
  obtain ⟨lookup, found, isTable⟩ := Option.bind_eq_some_iff.mp there
  obtain ⟨compiled, success, varies⟩ := exists_of_any varies
  obtain ⟨storeless, varies⟩ := Bool.and_eq_true_iff.mp varies
  obtain ⟨bytes, atPlace, varies⟩ := (Option.any_eq_true _ _).mp varies
  obtain ⟨_, isScope, varies⟩ := exists_of_any varies
  obtain ⟨scope, rfl, varies⟩ := (Option.any_eq_true _ _).mp varies
  obtain ⟨stored, isRead, varies⟩ := exists_of_any varies
  obtain ⟨_, atGlyph, varies⟩ := (Option.any_eq_true _ _).mp varies
  obtain ⟨anchor, rfl, varies⟩ := (Option.any_eq_true _ _).mp varies
  have noStore := Option.isNone_iff_eq_none.mp storeless
  cases subtable with
  | cursive table =>
    have covered : 4 ∈ table.anchors.keys := by
      rw [eq_of_beq isCursive]
      decide
    cases anchor with
    | fixed => cases varies
    | «variable» => exact ⟨compiled, lookup, table, bytes, scope, stored, _, success, noStore, found, isTable, atPlace,
        isScope, isRead, covered, atGlyph, CursiveAttachment.not_means_of_storeless noStore⟩
  | _ => cases isCursive

end Kashida
