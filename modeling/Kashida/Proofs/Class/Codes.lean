import Kashida.Pattern.Dialect
import Kashida.Proofs.Class.Memory
import Mathlib.Data.Nat.Digits.Defs
import Mathlib.Tactic.Ring

/-! Glyph codes. A name is a code exactly if it is written in hexadecimal digits, however many, and their value is a
glyph number; any other name that is neither a class nor a glyph is a pattern. -/
namespace Kashida

namespace Hex

def lowerCase : List Char := ['0', '1', '2', '3', '4', '5', '6', '7', '8', '9', 'a', 'b', 'c', 'd', 'e', 'f']

def upperCase : List Char := ['0', '1', '2', '3', '4', '5', '6', '7', '8', '9', 'A', 'B', 'C', 'D', 'E', 'F']

/-- The character is the hexadecimal digit of this value, in one case or the other. -/
def IsDigit (character : Char) (value : Nat) : Prop :=
  lowerCase[value]? = some character ∨ upperCase[value]? = some character

/-- The characters are digits, the most significant first, and this is their value. -/
def Spells (digits : List Char) (number : Nat) : Prop :=
  ∃ values, List.Forall₂ IsDigit digits values ∧ Nat.ofDigits 16 values.reverse = number

theorem IsDigit.lt {character : Char} {value : Nat} (isDigit : IsDigit character value) : value < 16 := by
  rcases isDigit with lower | upper
  · exact (List.getElem?_eq_some_iff.mp lower).1
  · exact (List.getElem?_eq_some_iff.mp upper).1

/-- Characters that follow one another in a table as they do in number are found by their distance from the first. -/
theorem getElem?_of_consecutive (table : List Char) (first place count : Nat) {character : Char}
    (consecutive : ∀ index < count, table[index + place]? = some (Char.ofNat (first + index)))
    (low : first ≤ character.toNat) (high : character.toNat < first + count) :
    table[character.toNat - first + place]? = some character := by
  rw [consecutive (character.toNat - first) (by omega), Nat.add_sub_cancel' low, Char.ofNat_toNat]

theorem digit?_eq_some_iff {character : Char} {value : Nat} :
    digit? character = some value ↔ IsDigit character value := by
  have number : ∀ {one other : Char}, one ≤ other → one.toNat ≤ other.toNat := UInt32.le_iff_toNat_le.mp
  constructor
  · intro found
    unfold digit? at found
    split at found
    · rename_i range
      have before : character.toNat < 48 + 10 := Nat.lt_succ_of_le (number range.2)
      cases found
      exact .inl (getElem?_of_consecutive lowerCase 48 0 10 (by decide) (number range.1) before)
    split at found
    · rename_i range
      have before : character.toNat < 97 + 6 := Nat.lt_succ_of_le (number range.2)
      cases found
      exact .inl (getElem?_of_consecutive lowerCase 97 10 6 (by decide) (number range.1) before)
    split at found
    · rename_i range
      have before : character.toNat < 65 + 6 := Nat.lt_succ_of_le (number range.2)
      cases found
      exact .inr (getElem?_of_consecutive upperCase 65 10 6 (by decide) (number range.1) before)
    · cases found
  · intro isDigit
    have each : ∀ value < 16,
        lowerCase[value]?.bind digit? = some value ∧ upperCase[value]?.bind digit? = some value := by decide
    obtain ⟨inLower, inUpper⟩ := each value isDigit.lt
    rcases isDigit with lower | upper
    · rwa [lower] at inLower
    · rwa [upper] at inUpper

theorem isDigit_zero_iff {value : Nat} : IsDigit '0' value ↔ value = 0 := by
  have zero : digit? '0' = some 0 := by decide
  rw [← digit?_eq_some_iff, zero, Option.some.injEq, eq_comm]

/-- Digits that follow a number move it up by their places. -/
theorem foldlM_eq_some_iff {digits : List Char} {start number : Nat} :
    digits.foldlM (fun value c => (digit? c).map (value * 16 + ·)) start = some number ↔
      ∃ values, List.Forall₂ IsDigit digits values ∧
        start * 16 ^ values.length + Nat.ofDigits 16 values.reverse = number := by
  induction digits generalizing start with
  | nil => simp
  | cons character digits ih =>
    have shift : ∀ (first : Nat) (values : List Nat), (start * 16 + first) * 16 ^ values.length +
        Nat.ofDigits 16 values.reverse =
          start * 16 ^ (first :: values).length + Nat.ofDigits 16 (first :: values).reverse := by
      intro first values
      rw [Nat.ofDigits_reverse_cons, List.length_cons]
      ring
    simp only [List.foldlM_cons, Option.bind_eq_bind, Option.bind_eq_some_iff, Option.map_eq_some_iff, ih,
      digit?_eq_some_iff]
    constructor
    · rintro ⟨_, ⟨first, isFirst, rfl⟩, values, each, rfl⟩
      exact ⟨first :: values, .cons isFirst each, (shift first values).symm⟩
    · rintro ⟨_, each, rfl⟩
      cases each with
      | @cons _ first _ values isFirst each =>
        exact ⟨_, ⟨first, isFirst, rfl⟩, values, each, shift first values⟩

theorem number?_eq_some_iff {digits : List Char} {number : Nat} :
    number? digits = some number ↔ Spells digits number := by
  rw [number?, foldlM_eq_some_iff]
  simp only [Nat.zero_mul, Nat.zero_add, Spells]

/-- Zeros in front count for nothing. -/
theorem spells_dropWhile_iff {digits : List Char} {number : Nat} :
    Spells (digits.dropWhile (· = '0')) number ↔ Spells digits number := by
  induction digits with
  | nil => rfl
  | cons character digits ih =>
    by_cases zero : character = '0'
    · subst zero
      rw [List.dropWhile_cons_of_pos (by decide), ih]
      simp only [Spells, List.forall₂_cons_left_iff, isDigit_zero_iff]
      constructor
      · rintro ⟨values, each, rfl⟩
        exact ⟨0 :: values, ⟨0, values, rfl, each, rfl⟩, Nat.ofDigits_reverse_zero_cons values⟩
      · rintro ⟨_, ⟨_, values, rfl, each, rfl⟩, rfl⟩
        exact ⟨values, each, (Nat.ofDigits_reverse_zero_cons values).symm⟩
    · rw [List.dropWhile_cons_of_neg (by simpa using zero)]

theorem Spells.lt_pow {digits : List Char} {number : Nat} (spells : Spells digits number) :
    number < 16 ^ digits.length := by
  obtain ⟨values, each, rfl⟩ := spells
  rw [each.length_eq, ← List.length_reverse]
  apply Nat.ofDigits_lt_base_pow_length (by decide)
  intro value member
  obtain ⟨character, _, isDigit⟩ := exists_of_forall₂ each (List.mem_reverse.mp member)
  exact isDigit.lt

/-- The first digit alone is worth a power of 16, unless it is zero. -/
theorem Spells.pow_le {character : Char} {digits : List Char} {number : Nat}
    (spells : Spells (character :: digits) number) (significant : character ≠ '0') : 16 ^ digits.length ≤ number := by
  obtain ⟨_, each, rfl⟩ := spells
  cases each with
  | @cons _ first _ values isFirst each =>
    have nonzero : 0 < first := by
      apply Nat.pos_of_ne_zero
      rintro rfl
      rcases isFirst with same | same <;> exact significant (Option.some.inj same).symm
    rw [Nat.ofDigits_reverse_cons, each.length_eq]
    exact (Nat.le_mul_of_pos_right _ nonzero).trans (Nat.le_add_left _ _)

/-- Without zeros in front the number of digits decides whether the value is a glyph number. -/
theorem Spells.le_iff {digits : List Char} {number : Nat} (spells : Spells digits number)
    (significant : digits.head? ≠ some '0') : number ≤ 65535 ↔ digits.length ≤ 4 := by
  constructor
  · intro fits
    by_contra long
    match digits with
    | [] => exact long (Nat.zero_le _)
    | character :: digits =>
      rw [List.length_cons] at long
      have power : 16 ^ 4 ≤ 16 ^ digits.length := Nat.pow_le_pow_right (by decide) (by omega)
      have large := spells.pow_le fun zero => significant (congrArg some zero)
      omega
  · intro short
    have power : 16 ^ digits.length ≤ 16 ^ 4 := Nat.pow_le_pow_right (by decide) short
    have small := spells.lt_pow
    omega

theorem not_spells_marker {mark : Char} (noDigit : digit? mark = none) (digits : List Char) (number : Nat) :
    ¬Spells ('0' :: mark :: digits) number := by
  rintro ⟨_, each, _⟩
  cases each with
  | cons _ each =>
    cases each with
    | cons isMark _ =>
      rw [← digit?_eq_some_iff, noDigit] at isMark
      cases isMark

end Hex

open Hex (Spells)

/-- The name spells the number as a code: in one or more hexadecimal digits of either case, behind `0x`, `0X` or
nothing. -/
def SpellsCode (name : String) (number : Nat) : Prop :=
  ∃ marker ∈ ["0x", "0X", ""], ∃ digits, name = marker ++ digits ∧ digits ≠ "" ∧ Spells digits.toList number

/-- No marker is made of digits, so that there is one way to take it off. -/
theorem codeDigits_of_spells {digits : List Char} {number : Nat} (spells : Spells digits number) :
    codeDigits digits = digits := by
  unfold codeDigits
  split
  · exact (Hex.not_spells_marker (by decide) _ _ spells).elim
  · exact (Hex.not_spells_marker (by decide) _ _ spells).elim
  · rfl

theorem spellsCode_iff {name : String} {number : Nat} :
    SpellsCode name number ↔ codeDigits name.toList ≠ [] ∧ Spells (codeDigits name.toList) number := by
  constructor
  · rintro ⟨marker, listed, digits, rfl, nonempty, spells⟩
    have same : codeDigits (marker ++ digits).toList = digits.toList := by
      rw [String.toList_append]
      simp only [List.mem_cons, List.not_mem_nil, or_false] at listed
      -- Without a marker the digits must not look as if they had one.
      rcases listed with rfl | rfl | rfl
      · rfl
      · rfl
      · exact codeDigits_of_spells spells
    rw [same]
    exact ⟨mt String.toList_eq_nil_iff.mp nonempty, spells⟩
  · rintro ⟨nonempty, spells⟩
    have marked : ∃ marker ∈ ["0x", "0X", ""], name.toList = marker.toList ++ codeDigits name.toList := by
      unfold codeDigits
      split
      · exact ⟨"0x", by decide, by assumption⟩
      · exact ⟨"0X", by decide, by assumption⟩
      · exact ⟨"", by decide, rfl⟩
    obtain ⟨marker, listed, whole⟩ := marked
    refine ⟨marker, listed, String.ofList (codeDigits name.toList), ?_, ?_, ?_⟩
    · rw [← String.toList_inj, String.toList_append, String.toList_ofList, ← whole]
    · rwa [ne_eq, ← String.toList_eq_nil_iff, String.toList_ofList]
    · rwa [String.toList_ofList]

theorem head?_dropWhile_zero (digits : List Char) : (digits.dropWhile (· = '0')).head? ≠ some '0' := by
  intro first
  have stopped := List.head?_dropWhile_not (fun c => decide (c = '0')) digits
  rw [first] at stopped
  cases stopped

theorem significantCode_eq_some_iff {digits : List Char} (significant : digits.head? ≠ some '0') {id : GlyphId} :
    (if 4 < digits.length then none else (Hex.number? digits).map UInt16.ofNat) = some id ↔ Spells digits id.toNat := by
  constructor
  · intro found
    split at found
    · cases found
    · rename_i short
      obtain ⟨number, isNumber, rfl⟩ := Option.map_eq_some_iff.mp found
      have spells := Hex.number?_eq_some_iff.mp isNumber
      have fits := (spells.le_iff significant).mpr (Nat.le_of_not_lt short)
      rwa [UInt16.toNat_ofNat', Nat.mod_eq_of_lt (Nat.lt_succ_of_le fits)]
  · intro spells
    have short := (spells.le_iff significant).mp (Nat.le_of_lt_succ id.toNat_lt)
    rw [if_neg (Nat.not_lt.mpr short), Hex.number?_eq_some_iff.mpr spells, Option.map_some, UInt16.ofNat_toNat]

theorem glyphCode?_eq_some_iff {name : String} {id : GlyphId} :
    glyphCode? name = some id ↔ SpellsCode name id.toNat := by
  rw [spellsCode_iff, glyphCode?]
  generalize codeDigits name.toList = digits
  cases digits with
  | nil => simp
  | cons first rest =>
    refine (significantCode_eq_some_iff (head?_dropWhile_zero (first :: rest))).trans ?_
    rw [Hex.spells_dropWhile_iff, and_iff_right (List.cons_ne_nil _ _)]

theorem exists_toNat_eq {number : Nat} (fits : number ≤ 65535) : ∃ id : GlyphId, id.toNat = number :=
  ⟨.ofNat number, UInt16.toNat_ofNat_of_lt (Nat.lt_succ_of_le fits)⟩

theorem glyphCode?_eq_none_iff {name : String} :
    glyphCode? name = none ↔ ¬∃ number ≤ 65535, SpellsCode name number := by
  rw [Option.eq_none_iff_forall_ne_some]
  constructor
  · rintro none ⟨number, fits, spells⟩
    obtain ⟨id, rfl⟩ := exists_toNat_eq fits
    exact none id (glyphCode?_eq_some_iff.mpr spells)
  · intro none id found
    exact none ⟨id.toNat, Nat.le_of_lt_succ id.toNat_lt, glyphCode?_eq_some_iff.mp found⟩

/-- A name that is no class resolves as a leaf, whatever was defined and asked before. -/
theorem ClassTable.resolve_of_no_class (order : GlyphOrder) (dialect : PatternDialect) {steps : List ClassStep}
    {name : String} (noClass : name ∉ ClassStep.definitions steps) :
    ((session order dialect steps).resolve order dialect name).1 = order.resolveLeaf dialect name := by
  obtain ⟨defined, remembers⟩ := session_remembers order dialect steps
  rw [(resolve_faithful name remembers).1, defined, ClassMap.expand_leaf (ClassMap.not_mem_iff.mp noClass)]

/-- Glyph codes are told exactly. A name is a code, and its number is given, exactly if it spells a number up to 65535
in hexadecimal digits of either case, with any number of zeros in front, behind at most one `0x` or `0X`. Any other name
is no code, also if it spells a larger number. So a name that is neither a class nor a glyph stands for the glyph that
has the number it spells, which must have a name, and is tried as a pattern if it spells no such number. -/
theorem glyph_codes_told_exactly :
    (∀ name number, (glyphCode? name).map UInt16.toNat = some number ↔ SpellsCode name number ∧ number ≤ 65535) ∧
    (∀ name, glyphCode? name = none ↔ ¬∃ number ≤ 65535, SpellsCode name number) ∧
    ∀ (order : GlyphOrder) (dialect : PatternDialect) (steps : List ClassStep) (name : String),
      name ∉ ClassStep.definitions steps → order.id? name = none →
      (∀ id : GlyphId, SpellsCode name id.toNat →
        ((ClassTable.session order dialect steps).resolve order dialect name).1 =
          if (order.name? id).isSome then .ok (.ofList [id]) else .error (.unknownGlyphId id)) ∧
      ((¬∃ number ≤ 65535, SpellsCode name number) →
        ((ClassTable.session order dialect steps).resolve order dialect name).1 = order.matchPattern dialect name) := by
  refine ⟨fun name number => ?_, fun name => glyphCode?_eq_none_iff, fun order dialect steps name noClass noGlyph => ?_⟩
  · rw [Option.map_eq_some_iff]
    constructor
    · rintro ⟨id, found, rfl⟩
      exact ⟨glyphCode?_eq_some_iff.mp found, Nat.le_of_lt_succ id.toNat_lt⟩
    · rintro ⟨spells, fits⟩
      obtain ⟨id, rfl⟩ := exists_toNat_eq fits
      exact ⟨id, glyphCode?_eq_some_iff.mpr spells, rfl⟩
  · rw [ClassTable.resolve_of_no_class order dialect noClass]
    constructor
    · intro id spells
      simp only [GlyphOrder.resolveLeaf, noGlyph, glyphCode?_eq_some_iff.mpr spells]
      cases order.name? id <;> rfl
    · intro noCode
      simp only [GlyphOrder.resolveLeaf, noGlyph, glyphCode?_eq_none_iff.mpr noCode]

/-- Ten digits that spell a glyph number and five that do not. -/
theorem glyph_codes_told_exactly_of_long_names :
    SpellsCode "0X000000000F" 15 ∧ (¬∃ number ≤ 65535, SpellsCode "10000" number) ∧
    ((ClassTable.session (.ofList [("alef", 15)]) Pattern.compile? [.define "marks" ["alef"]]).resolve
      (.ofList [("alef", 15)]) Pattern.compile? "0X000000000F").1 = .ok (.ofList [15]) ∧
    ((ClassTable.session (.ofList [("alef", 15)]) Pattern.compile? [.define "marks" ["alef"]]).resolve
      (.ofList [("alef", 15)]) Pattern.compile? "10000").1 =
        GlyphOrder.matchPattern (.ofList [("alef", 15)]) Pattern.compile? "10000" := by
  obtain ⟨coded, uncoded, resolved⟩ := glyph_codes_told_exactly
  have code := ((coded "0X000000000F" 15).mp (by decide +kernel)).1
  have noCode := (uncoded "10000").mp (by decide +kernel)
  have byCode := resolved (.ofList [("alef", 15)]) Pattern.compile? [.define "marks" ["alef"]] "0X000000000F"
    (by decide +kernel) (by decide +kernel)
  have byPattern := resolved (.ofList [("alef", 15)]) Pattern.compile? [.define "marks" ["alef"]] "10000"
    (by decide +kernel) (by decide +kernel)
  have known : ((GlyphOrder.ofList [("alef", 15)]).name? 15).isSome = true := by decide +kernel
  refine ⟨code, noCode, ?_, byPattern.2 noCode⟩
  rw [byCode.1 15 code, if_pos known]

end Kashida
