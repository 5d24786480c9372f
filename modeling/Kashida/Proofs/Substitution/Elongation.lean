import Kashida.Proofs.Substitution.SingleReader
import Kashida.Proofs.Variation.Normalizing

/-! Elongation records on the axis. Values are held to the limits of their glyph, and are divided by the bounds of all
glyphs where a font declares them; what lies within both is written as a fraction between -1 and 1 with the sign of the
value. -/
namespace Kashida

open Binary64

namespace Fixed

theorem ofRounded?_eq_some_iff {x : Rounded} : Fixed.ofRounded? x = some result ↔ ∃ value, x = .finite value ∧
    nearestAway (value.units * Nat.pow 2 16) unitsPerOne = result.raw.toInt := by
  unfold ofRounded? Rounded.scaled?
  cases x with
  | infinite negative => simp
  | finite value =>
    simp only [Rounded.finite.injEq, exists_eq_left']
    generalize nearestAway (value.units * Nat.pow 2 16) unitsPerOne = raw
    by_cases fits : Int32.minValue.toInt ≤ raw ∧ raw ≤ Int32.maxValue.toInt
    · rw [if_pos fits]
      have same : (Int32.ofInt raw).toInt = raw := Int32.toInt_ofInt_of_le fits.1 (Int.lt_add_one_of_le fits.2)
      simp only [Option.some.injEq]
      constructor
      · rintro rfl
        exact same.symm
      · intro isRaw
        rw [isRaw, Int32.ofInt_toInt]
    · rw [if_neg fits]
      simp only [reduceCtorEq, false_iff]
      rintro rfl
      exact fits ⟨result.raw.le_toInt, result.raw.toInt_le⟩

end Fixed

/-- Rounding keeps the sign that two numbers share. -/
theorem nearestAway_mul_nonneg {x y : Binary64} (same : x.negative = y.negative) (factor den : Nat) :
    0 ≤ nearestAway (x.units * factor) den * y.units := by
  cases sign : y.negative with
  | true =>
    refine Int.mul_nonneg_of_nonpos_of_nonpos (nearestAway_nonpos ?_) (units_nonpos sign)
    exact Int.mul_nonpos_of_nonpos_of_nonneg (units_nonpos (same.trans sign)) (Int.natCast_nonneg factor)
  | false =>
    refine Int.mul_nonneg (nearestAway_nonneg ?_) (units_nonneg sign)
    exact Int.mul_nonneg (units_nonneg (same.trans sign)) (Int.natCast_nonneg factor)

/-- A value between zero and the limit on its side. -/
def ElongationLimits.Reaches (limits : ElongationLimits) (axis : Axis) (value : Binary64) : Prop :=
  (value.units < 0 → (limits.get axis.minimum).units ≤ value.units) ∧
    (0 < value.units → value.units ≤ (limits.get axis.maximum).units)

/-- The least and the greatest value that a glyph may have in a field: tatweel lies anywhere between the limits of its
axis, and expansion on the side of its field. -/
def ElongationLimits.range (limits : ElongationLimits) (format : SingleFormat) (field : LimitField) :
    Binary64 × Binary64 :=
  match format with
  | .expansion => if field.isMinimum then (limits.get field, .zero) else (.zero, limits.get field)
  | _ =>
      let lowest := limits.get field.axis.minimum
      let highest := limits.get field.axis.maximum
      (if lowest < .zero then lowest else .zero, if .zero < highest then highest else .zero)

/-- The limit that a value is divided by. -/
def ElongationLimits.divisor (limits : ElongationLimits) (axis : Axis) (value : Binary64) : Binary64 :=
  limits.get (if value < .zero then axis.minimum else axis.maximum)

namespace ElongationLimits

variable {limits : ElongationLimits} {axis : Axis} {value : Binary64}

theorem Reaches.divisor (reaches : limits.Reaches axis value) (nonzero : value.isZero = false) :
    (limits.divisor axis value).negative = value.negative ∧
      value.units.natAbs ≤ (limits.divisor axis value).units.natAbs := by
  have apart := isZero_eq_false_iff.mp nonzero
  have ordered : (value.units < 0 → (limits.divisor axis value).units ≤ value.units) ∧
      (0 < value.units → value.units ≤ (limits.divisor axis value).units) := by
    constructor
    · intro below
      rw [ElongationLimits.divisor, if_pos (show value < .zero from below)]
      exact reaches.1 below
    · intro above
      rw [ElongationLimits.divisor, if_neg (show ¬value < .zero from Int.not_lt.mpr (Int.le_of_lt above))]
      exact reaches.2 above
  have bound : (limits.divisor axis value).isZero = false := by
    rw [isZero_eq_false_iff]
    omega
  rw [negative_eq bound, negative_eq nonzero, decide_eq_decide]
  omega

/-- A value that the limits reach has a field, which is on the axis and on the side of the value. -/
theorem Reaches.exists_field (reaches : limits.Reaches axis value) :
    ∃ field, Fixed.ofRounded? (normalize value (limits.divisor axis value)) = some field ∧
      field.raw.toInt.natAbs ≤ 65536 ∧ 0 ≤ field.raw.toInt * value.units := by
  obtain ⟨result, finite, sign, small⟩ : ∃ result, normalize value (limits.divisor axis value) = .finite result ∧
      (value.isZero = false → result.negative = value.negative) ∧ result.units.natAbs ≤ unitsPerOne := by
    cases zero : value.isZero with
    | true => exact ⟨.zero, if_pos zero, by simp, Nat.zero_le _⟩
    | false =>
      obtain ⟨sign, within⟩ := reaches.divisor zero
      obtain ⟨result, finite, resultSign, small⟩ := normalize_within zero within
      exact ⟨result, finite, fun _ => resultSign.trans sign, small⟩
  have few : (nearestAway (result.units * Nat.pow 2 16) unitsPerOne).natAbs ≤ 65536 :=
    natAbs_nearestAway_mul_le (by decide +kernel) small (Nat.pow 2 16)
  have side : 0 ≤ nearestAway (result.units * Nat.pow 2 16) unitsPerOne * value.units := by
    cases zero : value.isZero with
    | true =>
      have none : value.units = 0 := beq_iff_eq.mp zero
      simp [none]
    | false => exact nearestAway_mul_nonneg (sign zero) _ _
  generalize isRaw : nearestAway (result.units * Nat.pow 2 16) unitsPerOne = raw at few side
  have same : (Int32.ofInt raw).toInt = raw := Int32.toInt_ofInt_of_le (by omega) (by omega)
  refine ⟨⟨.ofInt raw⟩, Fixed.ofRounded?_eq_some_iff.mpr ⟨result, finite, isRaw.trans same.symm⟩, ?_⟩
  rw [same]
  exact ⟨few, side⟩

theorem mul_le_mul_of_ratio {a b left right first second : Nat} (positive : 0 < a) (ratio : a * left = b * right)
    (exceeds : b * first ≤ a * second) : first * left ≤ second * right := by
  apply Nat.le_of_mul_le_mul_left ?_ positive
  calc a * (first * left) = first * (a * left) := Nat.mul_left_comm ..
    _ = b * first * right := by rw [ratio, Nat.mul_left_comm, Nat.mul_assoc]
    _ ≤ a * second * right := Nat.mul_le_mul_right _ exceeds
    _ = a * (second * right) := Nat.mul_assoc ..

/-- The field of any value is on the side of its divisor, and leaves the axis if the value exceeds the divisor by a
131072th part of it or more. -/
theorem field_of_divisor (nonzero : value.isZero = false)
    (isField : Fixed.ofRounded? (normalize value (limits.divisor axis value)) = some field) :
    0 ≤ field.raw.toInt * (limits.divisor axis value).units ∧
      (131073 * (limits.divisor axis value).units.natAbs ≤ 131072 * value.units.natAbs →
        65536 < field.raw.toInt.natAbs) := by
  obtain ⟨result, finite, isRaw⟩ := Fixed.ofRounded?_eq_some_iff.mp isField
  obtain ⟨apart, sign, isRank⟩ := normalize_eq_finite nonzero finite
  rw [← isRaw]
  refine ⟨nearestAway_mul_nonneg sign _ _, fun exceeds => ?_⟩
  have positive : 0 < unitsAt (limits.divisor axis value).rank := by
    rw [← natAbs_units]
    exact Int.natAbs_pos.mpr (isZero_eq_false_iff.mp apart)
  -- The rank of 1 + 2^-17, which lies half-way between one and the next 16.16 number.
  have middle : 131072 * unitsAt (1023 * Nat.pow 2 52 + Nat.pow 2 35) = 131073 * unitsPerOne := by decide +kernel
  have large : 1023 * Nat.pow 2 52 + Nat.pow 2 35 ≤ result.rank := by
    rw [isRank]
    apply Rounded.le_nearestRank positive
    rw [natAbs_units, natAbs_units] at exceeds
    exact mul_le_mul_of_ratio (by decide) middle exceeds
  have least := unitsAt_le_iff.mpr large
  have whole : 0 < unitsPerOne := by decide +kernel
  rw [natAbs_nearestAway whole, Int.natAbs_mul, natAbs_units, Int.natAbs_natCast,
    show Nat.pow 2 16 = 65536 from rfl, Nat.lt_iff_add_one_le, Nat.le_div_iff_mul_le (by omega)]
  generalize unitsPerOne = one at middle whole ⊢
  omega

/-- Limits reach what lies in their range. -/
theorem reaches_of_range {format : SingleFormat} {field : LimitField} (low : ¬value < (limits.range format field).1)
    (high : ¬(limits.range format field).2 < value) : limits.Reaches field.axis value := by
  have order : ∀ x y : Binary64, x < y ↔ x.units < y.units := fun x y => Iff.rfl
  have zero : Binary64.zero.units = 0 := by decide
  simp only [order] at low high
  unfold Reaches range at *
  cases format with
  | expansion =>
    cases field <;>
      simp only [LimitField.isMinimum, LimitField.axis, Axis.minimum, Axis.maximum, zero, if_true, Bool.false_eq_true,
        if_false] at low high ⊢ <;> omega
  | plain | tatweel =>
    simp only [order, zero] at low high
    split at low <;> split at high <;> constructor <;> omega

end ElongationLimits

/-- An elongation of a glyph in one field of a table. -/
structure PlacedValue where
  glyph : GlyphId
  field : LimitField
  value : Binary64
deriving DecidableEq

/-- The values of a record in the order of its fields. -/
def SingleEntry.values (format : SingleFormat) (entry : SingleEntry) : List PlacedValue :=
  match format with
  | .plain => []
  | .tatweel => [⟨entry.substitute, .minLeft, entry.expansion.minLeft⟩,
      ⟨entry.substitute, .minRight, entry.expansion.minRight⟩]
  | .expansion => [⟨entry.substitute, .minLeft, entry.expansion.minLeft⟩,
      ⟨entry.substitute, .maxLeft, entry.expansion.maxLeft⟩, ⟨entry.substitute, .minRight, entry.expansion.minRight⟩,
      ⟨entry.substitute, .maxRight, entry.expansion.maxRight⟩]

def StoredSubstitute.fields : StoredSubstitute → List Fixed
  | .plain _ => []
  | .tatweel _ left right => [left, right]
  | .expansion _ minLeft maxLeft minRight maxRight _ _ => [minLeft, maxLeft, minRight, maxRight]

/-- All values of a table in the order in which they are written. -/
def SingleSubstitution.values (table : SingleSubstitution) : List PlacedValue :=
  table.entries.toList.flatMap fun entry => entry.2.values table.format

namespace PlacedValue

/-- The value is in the range of its glyph. -/
def InRange (font : Font) (format : SingleFormat) (placed : PlacedValue) : Prop :=
  ∃ name, font.glyphName placed.glyph = .ok name ∧
    let range := (font.limits.getOrZero name).range format placed.field
    ¬placed.value < range.1 ∧ ¬range.2 < placed.value

/-- The bounds of all glyphs, if there are any, reach the value. -/
def InBounds (font : Font) (placed : PlacedValue) : Prop :=
  ∀ bounds, font.limits.uniform = some bounds → bounds.Reaches placed.field.axis placed.value

/-- What the value is divided by: a limit of its glyph, or a bound of all glyphs. -/
def divisor (font : Font) (name : String) (placed : PlacedValue) : Binary64 :=
  (font.limits.uniform.getD (font.limits.getOrZero name)).divisor placed.field.axis placed.value

/-- The field holds the value as a fraction of its divisor. -/
def Holds (font : Font) (placed : PlacedValue) (field : Fixed) : Prop :=
  ∃ name, font.glyphName placed.glyph = .ok name ∧
    Fixed.ofRounded? (normalize placed.value (placed.divisor font name)) = some field

/-- The field is between -1 and 1, and not of the sign opposite to that of the value. -/
def OnAxis (placed : PlacedValue) (field : Fixed) : Prop :=
  field.raw.toInt.natAbs ≤ 65536 ∧ 0 ≤ field.raw.toInt * placed.value.units

/-- The field is on the side of the divisor, and beyond -1 or 1 if the value exceeds the divisor by a 131072th part. -/
def FollowsDivisor (font : Font) (placed : PlacedValue) (field : Fixed) : Prop :=
  placed.value.isZero = false → ∃ name, font.glyphName placed.glyph = .ok name ∧
    0 ≤ field.raw.toInt * (placed.divisor font name).units ∧
    (131073 * (placed.divisor font name).units.natAbs ≤ 131072 * placed.value.units.natAbs →
      65536 < field.raw.toInt.natAbs)

/-- The value is outside the range of its glyph, and the error names the end that it passes. -/
def Refused (font : Font) (format : SingleFormat) (placed : PlacedValue) (error : BoundsError) : Prop :=
  ∃ name, font.glyphName placed.glyph = .ok name ∧
    let range := (font.limits.getOrZero name).range format placed.field
    (placed.value < range.1 ∧ error = ⟨name, placed.field, placed.value, range.1⟩ ∨
      ¬placed.value < range.1 ∧ range.2 < placed.value ∧ error = ⟨name, placed.field, placed.value, range.2⟩)

/-- The step that writes the value. -/
def encode (font : Font) (format : SingleFormat) (placed : PlacedValue) : Except CompileError Fixed := do
  let scale ← ElongationScale.ofGlyph font placed.glyph
  let range := scale.limits.range format placed.field
  scale.encode placed.field range.1 range.2 placed.value

section

variable {font : Font} {format : SingleFormat} {placed : PlacedValue}

theorem encode_of_name (normalized : font.options.normalized = true) (named : font.glyphName placed.glyph = .ok name) :
    placed.encode font format =
      let range := (font.limits.getOrZero name).range format placed.field
      if placed.value < range.1 then .error (.axisBounds ⟨name, placed.field, placed.value, range.1⟩)
      else if range.2 < placed.value then .error (.axisBounds ⟨name, placed.field, placed.value, range.2⟩)
      else (Fixed.ofRounded (normalize placed.value (placed.divisor font name))).mapError .write := by
  have scaled : ElongationScale.ofGlyph font placed.glyph = .ok ⟨font, name, font.limits.getOrZero name⟩ := by
    rw [ElongationScale.ofGlyph, named]
    rfl
  rw [encode, scaled]
  show ElongationScale.encode _ _ _ _ _ = _
  rw [ElongationScale.encode, if_pos normalized]
  rfl

theorem encode_without_name (unnamed : font.glyphName placed.glyph = .error error) :
    placed.encode font format = .error (.resolve error) := by
  have scaled : ElongationScale.ofGlyph font placed.glyph = .error error := by
    rw [ElongationScale.ofGlyph, unnamed]
    rfl
  rw [encode, scaled]
  rfl

theorem encode_eq_ok_iff {written : Fixed} (normalized : font.options.normalized = true) :
    placed.encode font format = .ok written ↔ placed.InRange font format ∧ placed.Holds font written := by
  unfold InRange Holds
  cases named : font.glyphName placed.glyph with
  | error error => simp [encode_without_name named]
  | ok name =>
    rw [encode_of_name normalized named]
    simp only [Except.ok.injEq, exists_eq_left', ← ElongationScale.fixed_eq_ok_iff]
    by_cases below : placed.value < ((font.limits.getOrZero name).range format placed.field).1
    · simp [below]
    · by_cases above : ((font.limits.getOrZero name).range format placed.field).2 < placed.value
      · simp [below, above]
      · simp [below, above]

theorem encode_eq_bounds_iff (normalized : font.options.normalized = true) :
    placed.encode font format = .error (.axisBounds error) ↔ placed.Refused font format error := by
  unfold Refused
  cases named : font.glyphName placed.glyph with
  | error error => simp [encode_without_name named]
  | ok name =>
    rw [encode_of_name normalized named]
    simp only [Except.ok.injEq, exists_eq_left']
    by_cases below : placed.value < ((font.limits.getOrZero name).range format placed.field).1
    · simp [below, eq_comm]
    · by_cases above : ((font.limits.getOrZero name).range format placed.field).2 < placed.value
      · simp [below, above, eq_comm]
      · cases Fixed.ofRounded (normalize placed.value (placed.divisor font name)) <;>
          simp [below, above, Except.mapError]

theorem encode_tatweel : placed.encode font .tatweel = (do
    let scale ← ElongationScale.ofGlyph font placed.glyph
    scale.value placed.field placed.value) := rfl

theorem encode_expansion : placed.encode font .expansion = (do
    let scale ← ElongationScale.ofGlyph font placed.glyph
    scale.limit placed.field placed.value) := by
  unfold encode ElongationScale.limit ElongationLimits.range
  cases placed.field.isMinimum <;> rfl

theorem scaled_bind {scale : ElongationScale} {next : ElongationScale → Except CompileError α} :
    ((liftM (Except.ok scale : Except ResolveError _) : Except CompileError _) >>= next) = next scale := rfl

theorem InRange.reaches (inRange : placed.InRange font format) (inBounds : placed.InBounds font) :
    ∃ name, font.glyphName placed.glyph = .ok name ∧
      (font.limits.uniform.getD (font.limits.getOrZero name)).Reaches placed.field.axis placed.value := by
  obtain ⟨name, named, low, high⟩ := inRange
  refine ⟨name, named, ?_⟩
  cases uniform : font.limits.uniform with
  | none => exact ElongationLimits.reaches_of_range low high
  | some bounds => exact inBounds bounds uniform

/-- A value in range and within all bounds is written. -/
theorem InRange.exists_field (inRange : placed.InRange font format) (inBounds : placed.InBounds font) :
    ∃ field, placed.Holds font field := by
  obtain ⟨name, named, reaches⟩ := inRange.reaches inBounds
  obtain ⟨field, isField, _⟩ := reaches.exists_field
  exact ⟨field, name, named, isField⟩

theorem Holds.onAxis {written : Fixed} (holds : placed.Holds font written) (inRange : placed.InRange font format)
    (inBounds : placed.InBounds font) : placed.OnAxis written := by
  obtain ⟨name, named, reaches⟩ := inRange.reaches inBounds
  obtain ⟨field, isField, onAxis⟩ := reaches.exists_field
  obtain ⟨other, alsoNamed, isWritten⟩ := holds
  cases named.symm.trans alsoNamed
  cases isField.symm.trans isWritten
  exact onAxis

theorem Holds.followsDivisor {written : Fixed} (holds : placed.Holds font written) :
    placed.FollowsDivisor font written := by
  obtain ⟨name, named, isWritten⟩ := holds
  exact fun nonzero => ⟨name, named, ElongationLimits.field_of_divisor nonzero isWritten⟩

/-- A value whose glyph has a name is out of range if it is not in range. -/
theorem exists_refused (named : font.glyphName placed.glyph = .ok name) (outside : ¬placed.InRange font format) :
    ∃ error, placed.Refused font format error := by
  by_cases below : placed.value < ((font.limits.getOrZero name).range format placed.field).1
  · exact ⟨_, name, named, .inl ⟨below, rfl⟩⟩
  · by_cases above : ((font.limits.getOrZero name).range format placed.field).2 < placed.value
    · exact ⟨_, name, named, .inr ⟨below, above, rfl⟩⟩
    · exact absurd ⟨name, named, below, above⟩ outside

end

end PlacedValue

namespace SingleSubstitution

/-- The bytes of a record with these fields. -/
def recordBytes (format : SingleFormat) (entry : SingleEntry) (fields : List Fixed) : List UInt8 :=
  word16 entry.substitute ++ fields.flatMap Fixed.bytes ++
    if format = .expansion then word16 entry.expansion.weight ++ word32 entry.expansion.flags else []

/-- The values of a record are written one after the other. -/
theorem encodeEntry_eq {font : Font} {format : SingleFormat} {entry : SingleEntry} (valued : format ≠ .plain) :
    encodeEntry font format entry =
      ((entry.values format).mapM (PlacedValue.encode font format)).map (recordBytes format entry) := by
  cases format with
  | plain => exact absurd rfl valued
  | tatweel =>
    simp only [encodeEntry, SingleEntry.values, List.mapM_cons, List.mapM_nil, PlacedValue.encode_tatweel]
    cases ElongationScale.ofGlyph font entry.substitute with
    | error missing => rfl
    | ok scale =>
      simp only [PlacedValue.scaled_bind]
      cases scale.value .minLeft entry.expansion.minLeft with
      | error error => rfl
      | ok left => cases scale.value .minRight entry.expansion.minRight <;> rfl
  | expansion =>
    simp only [encodeEntry, SingleEntry.values, List.mapM_cons, List.mapM_nil, PlacedValue.encode_expansion]
    cases ElongationScale.ofGlyph font entry.substitute with
    | error missing => rfl
    | ok scale =>
      simp only [PlacedValue.scaled_bind]
      cases scale.limit .minLeft entry.expansion.minLeft with
      | error error => rfl
      | ok minLeft =>
        cases scale.limit .maxLeft entry.expansion.maxLeft with
        | error error => rfl
        | ok maxLeft =>
          cases scale.limit .minRight entry.expansion.minRight with
          | error error => rfl
          | ok minRight => cases scale.limit .maxRight entry.expansion.maxRight <;> rfl

/-- Values out of range are all that a table reports as such. -/
theorem encodeExtended_eq_bounds_iff {font : Font} {table : SingleSubstitution} (valued : table.format ≠ .plain) :
    encodeExtended font table = .error (.axisBounds error) ↔ table.entries.size ≤ 65535 ∧
      table.values.mapM (PlacedValue.encode font table.format) = .error (.axisBounds error) := by
  have unwritten : ∀ {α : Type} (outcome : Except WriteError α),
      ¬(liftM outcome : Except CompileError α) = .error (.axisBounds error) := by
    intro α outcome same
    cases outcome <;> cases same
  have records : (table.entries.toList.mapM fun entry => encodeEntry font table.format entry.2) =
      .error (.axisBounds error) ↔
      table.values.mapM (PlacedValue.encode font table.format) = .error (.axisBounds error) :=
    mapM_eq_error_iff_flatMap fun entry _ error => by rw [encodeEntry_eq valued, map_eq_error_iff]
  rw [← records, ← Std.TreeMap.length_toList]
  constructor
  · intro failed
    rcases bind_eq_error_iff.mp failed with uncounted | ⟨count, counted, failed⟩
    · exact absurd uncounted (unwritten _)
    rcases bind_eq_error_iff.mp failed with unrecorded | ⟨found, _, failed⟩
    · exact ⟨(count16_eq_ok_iff.mp (write_eq_ok_iff.mp counted)).1, unrecorded⟩
    rcases bind_eq_error_iff.mp failed with unplaced | ⟨coverageAt, _, failed⟩
    · exact absurd unplaced (unwritten _)
    rcases bind_eq_error_iff.mp failed with uncovered | ⟨covered, _, failed⟩
    · exact absurd uncovered (unwritten _)
    · cases failed
  · rintro ⟨few, unrecorded⟩
    obtain ⟨count, counted⟩ := exists_count16_iff.mpr few
    exact bind_eq_error_iff.mpr (.inr ⟨count, write_eq_ok_iff.mpr counted, bind_eq_error_iff.mpr (.inl unrecorded)⟩)

/-- The fields that a record is described by hold its values, which are all in range. -/
theorem forall₂_fields_of_describes {font : Font} {format : SingleFormat} {entry : SingleEntry}
    (normalized : font.options.normalized = true) (describes : entry.Describes font format record)
    (inRange : ∀ placed ∈ entry.values format, placed.InRange font format) :
    List.Forall₂ (fun placed field => placed.InRange font format ∧ placed.Holds font field)
      (entry.values format) record.fields := by
  rw [List.forall₂_and_left]
  refine ⟨inRange, ?_⟩
  have holds : ∀ {field : LimitField} {value : Binary64} {written : Fixed},
      font.Expresses entry.substitute field.axis value written →
      PlacedValue.Holds font ⟨entry.substitute, field, value⟩ written := by
    intro field value written expresses
    rwa [Font.Expresses, if_pos normalized] at expresses
  cases describes with
  | tatweel left right => exact .cons (holds left) (.cons (holds right) .nil)
  | expansion minLeft maxLeft minRight maxRight =>
    exact .cons (holds minLeft) (.cons (holds maxLeft) (.cons (holds minRight) (.cons (holds maxRight) .nil)))

theorem inRange_of_encodeExtended {font : Font} {table : SingleSubstitution} (valued : table.format ≠ .plain)
    (normalized : font.options.normalized = true) (written : encodeExtended font table = .ok bytes) :
    ∀ entry ∈ table.entries.toList, ∀ placed ∈ entry.2.values table.format, placed.InRange font table.format := by
  intro entry member placed listed
  simp only [encodeExtended, bind_eq_ok_iff, mapM_eq_ok_iff] at written
  obtain ⟨_, _, records, each, _⟩ := written
  obtain ⟨record, _, recorded⟩ := exists_of_forall₂ each.flip member
  rw [encodeEntry_eq valued, map_eq_ok_iff] at recorded
  obtain ⟨fields, all, _⟩ := recorded
  obtain ⟨field, _, encoded⟩ := exists_of_forall₂ (mapM_eq_ok_iff.mp all).flip listed
  exact ((PlacedValue.encode_eq_ok_iff normalized).mp encoded).1

theorem encodeExtended_refuses_iff {font : Font} {table : SingleSubstitution} (valued : table.format ≠ .plain)
    (normalized : font.options.normalized = true) : encodeExtended font table = .error (.axisBounds error) ↔
      table.entries.size ≤ 65535 ∧ ∃ earlier placed later, table.values = earlier ++ placed :: later ∧
        (∀ other ∈ earlier, other.InRange font table.format ∧ ∃ field, other.Holds font field) ∧
        placed.Refused font table.format error := by
  rw [encodeExtended_eq_bounds_iff valued, mapM_eq_error_iff]
  simp only [PlacedValue.encode_eq_ok_iff normalized, PlacedValue.encode_eq_bounds_iff normalized, exists_and_left]

theorem exists_refusal {font : Font} {table : SingleSubstitution} (valued : table.format ≠ .plain)
    (normalized : font.options.normalized = true) (few : table.entries.size ≤ 65535)
    (named : ∀ placed ∈ table.values, ∃ name, font.glyphName placed.glyph = .ok name)
    (held : ∀ placed ∈ table.values, placed.InRange font table.format → placed.InBounds font)
    (outside : ∃ placed ∈ table.values, ¬placed.InRange font table.format) :
    ∃ error, encodeExtended font table = .error (.axisBounds error) := by
  cases outcome : table.values.mapM (PlacedValue.encode font table.format) with
  | ok fields =>
    obtain ⟨placed, listed, outside⟩ := outside
    obtain ⟨field, _, encoded⟩ := exists_of_forall₂ (mapM_eq_ok_iff.mp outcome).flip listed
    exact absurd ((PlacedValue.encode_eq_ok_iff normalized).mp encoded).1 outside
  | error error =>
    obtain ⟨placed, listed, failed⟩ := exists_of_mapM_error outcome
    by_cases inside : placed.InRange font table.format
    · obtain ⟨field, holds⟩ := inside.exists_field (held placed listed inside)
      cases failed.symm.trans ((PlacedValue.encode_eq_ok_iff normalized).mpr ⟨inside, holds⟩)
    · obtain ⟨name, isName⟩ := named placed listed
      obtain ⟨refusal, refused⟩ := PlacedValue.exists_refused isName inside
      cases failed.symm.trans ((PlacedValue.encode_eq_bounds_iff normalized).mpr refused)
      exact ⟨refusal, (encodeExtended_eq_bounds_iff valued).mpr ⟨few, outcome⟩⟩

end SingleSubstitution

/-- Records with normalized values. What is written is in the range of its glyph, and on the axis and on the side of the
value if the bounds of all glyphs reach it as well. Beyond these bounds it follows the bound instead. A value is
reported exactly if it is the first that cannot be written and is outside the range of its glyph; so every value beyond
range or bounds leads to a report, if the glyphs have names, the entries can be counted and no value is in range but out
of bounds. -/
theorem SingleSubstitution.normalized_records_on_axis (font : Font) (table : SingleSubstitution)
    (valued : table.format ≠ .plain) (extended : font.options.extended = true)
    (normalized : font.options.normalized = true) :
    (∀ bytes, table.encode font = .ok bytes → ∃ stored, StoredSubstitute.read (.ofBytes bytes) = .ok stored ∧
      stored.Represents (fun _ (entry : SingleEntry) record => List.Forall₂ (fun placed field =>
        placed.InRange font table.format ∧ placed.Holds font field ∧ placed.FollowsDivisor font field ∧
          (placed.InBounds font → placed.OnAxis field)) (entry.values table.format) record.fields) table.entries) ∧
    (∀ error, table.encode font = .error (.axisBounds error) ↔ table.entries.size ≤ 65535 ∧
      ∃ earlier placed later, table.values = earlier ++ placed :: later ∧
        (∀ other ∈ earlier, other.InRange font table.format ∧ ∃ field, other.Holds font field) ∧
        placed.Refused font table.format error) ∧
    (table.entries.size ≤ 65535 → (∀ placed ∈ table.values, ∃ name, font.glyphName placed.glyph = .ok name) →
      (∀ placed ∈ table.values, placed.InRange font table.format → placed.InBounds font) →
      (∃ placed ∈ table.values, ¬placed.InRange font table.format ∨ ¬placed.InBounds font) →
      ∃ error, table.encode font = .error (.axisBounds error)) := by
  have same : table.encode font = encodeExtended font table := by
    rw [encode, isExtended, if_pos (by simp [valued]), if_pos extended]
  rw [same]
  refine ⟨?_, fun error => encodeExtended_refuses_iff valued normalized, ?_⟩
  · intro bytes written
    obtain ⟨stored, isRead, _, represents⟩ := read_encodeExtended valued written
    refine ⟨stored, isRead, represents.imp ?_⟩
    intro glyph entry record found describes
    have inRange := inRange_of_encodeExtended valued normalized written (glyph, entry)
      (Std.TreeMap.mem_toList_iff_getElem?_eq_some.mpr found)
    refine (forall₂_fields_of_describes normalized describes inRange).imp ?_
    rintro placed field ⟨inside, holds⟩
    exact ⟨inside, holds, holds.followsDivisor, holds.onAxis inside⟩
  · rintro few named held ⟨placed, listed, outside⟩
    refine exists_refusal valued normalized few named held ⟨placed, listed, ?_⟩
    rcases outside with outside | beyond
    · exact outside
    · exact mt (held placed listed) beyond

/-- A glyph that stretches to the left by up to four, in a font with a bound of two for all glyphs. -/
def boundedFont : Font :=
  { glyphs := .ofList [("beh", 3), ("long", 5)]
    limits := LimitTable.insert { uniform := some { maxLeft := ⟨false, 1024 * Nat.pow 2 52, by decide⟩ } } "long"
      { maxLeft := ⟨false, 1025 * Nat.pow 2 52, by decide⟩ }
    options := { extended := true } }

/-- A substitution by that glyph, stretched to the left by this value. -/
def stretching (value : Binary64) : SingleSubstitution :=
  ⟨.tatweel, (∅ : Std.TreeMap GlyphId SingleEntry).insert 3 ⟨5, { minLeft := value }⟩⟩

/-- One is half of the bound. Five is out of range, and is reported. -/
theorem SingleSubstitution.normalized_records_on_axis_of_half :
    let five : Binary64 := ⟨false, 1025 * Nat.pow 2 52 + Nat.pow 2 50, by decide⟩
    boundedFont.options.normalized = true ∧
    (∃ bytes stored, (stretching .one).encode boundedFont = .ok bytes ∧
      StoredSubstitute.read (.ofBytes bytes) = .ok stored ∧ stored.values = [.tatweel 5 ⟨32768⟩ ⟨0⟩] ∧
      stored.Represents (fun _ (entry : SingleEntry) record => List.Forall₂ (fun placed field =>
        placed.InRange boundedFont .tatweel ∧ placed.Holds boundedFont field ∧ placed.FollowsDivisor boundedFont field ∧
          (placed.InBounds boundedFont → placed.OnAxis field)) (entry.values .tatweel) record.fields)
        (stretching .one).entries) ∧
    ∃ error, (stretching five).encode boundedFont = .error (.axisBounds error) := by
  intro five
  have written : (stretching .one).encode boundedFont =
      .ok [0, 11, 0, 16, 0, 1, 0, 5, 0, 0, 128, 0, 0, 0, 0, 0, 0, 1, 0, 1, 0, 3] := by decide +kernel
  have isRead : StoredSubstitute.read
      (.ofBytes [0, 11, 0, 16, 0, 1, 0, 5, 0, 0, 128, 0, 0, 0, 0, 0, 0, 1, 0, 1, 0, 3]) =
        .ok ⟨16, [3], [.tatweel 5 ⟨32768⟩ ⟨0⟩]⟩ := by decide +kernel
  obtain ⟨onAxis, _, _⟩ := normalized_records_on_axis boundedFont (stretching .one) (by decide) rfl rfl
  obtain ⟨_, _, reports⟩ := normalized_records_on_axis boundedFont (stretching five) (by decide) rfl rfl
  obtain ⟨stored, found, represents⟩ := onAxis _ written
  cases isRead.symm.trans found
  refine ⟨rfl, ⟨_, _, written, isRead, rfl, represents⟩, ?_⟩
  have named : boundedFont.glyphName 5 = .ok "long" := by decide +kernel
  have values : (stretching five).values = [⟨5, .minLeft, five⟩, ⟨5, .minRight, .zero⟩] := by decide +kernel
  have outside : ¬PlacedValue.InRange boundedFont .tatweel ⟨5, .minLeft, five⟩ := by
    rintro ⟨name, isName, _, inside⟩
    cases named.symm.trans isName
    exact inside (by decide +kernel)
  refine reports (by decide +kernel) ?_ ?_ ?_
  · rw [values]
    simp [named]
  · rw [values]
    intro placed member inside
    rcases List.mem_cons.mp member with rfl | member
    · exact absurd inside outside
    · cases List.mem_singleton.mp member
      exact fun bounds _ => ⟨fun below => absurd below (by decide), fun above => absurd above (by decide)⟩
  · rw [values]
    exact ⟨_, List.mem_cons_self, .inl outside⟩

/-- Three is in range, but beyond the bound: its field is one and a half. -/
theorem SingleSubstitution.value_beyond_bounds_off_axis :
    let three : Binary64 := ⟨false, 1024 * Nat.pow 2 52 + Nat.pow 2 51, by decide⟩
    (stretching three).encode boundedFont =
      .ok [0, 11, 0, 16, 0, 1, 0, 5, 0, 1, 128, 0, 0, 0, 0, 0, 0, 1, 0, 1, 0, 3] ∧
    ∃ stored, StoredSubstitute.read (.ofBytes [0, 11, 0, 16, 0, 1, 0, 5, 0, 1, 128, 0, 0, 0, 0, 0, 0, 1, 0, 1, 0, 3]) =
      .ok stored ∧ stored.values = [.tatweel 5 ⟨98304⟩ ⟨0⟩] ∧ ¬PlacedValue.OnAxis ⟨5, .minLeft, three⟩ ⟨98304⟩ := by
  intro three
  refine ⟨by decide +kernel, ⟨16, [3], [.tatweel 5 ⟨98304⟩ ⟨0⟩]⟩, by decide +kernel, rfl, ?_⟩
  rintro ⟨small, _⟩
  exact absurd small (by decide)

end Kashida
