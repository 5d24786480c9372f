import Kashida.Proofs.Bytes.Rejecting
import Kashida.Proofs.Tables

/-! Anchors in both directions: the bytes of an anchor read back as the anchor, and what a reader makes of any data is
told by the words that the data starts with. -/
namespace Kashida

namespace Anchor

/-- What the data holds from its start on: an anchor of one of the two formats with its words in place, words that no
anchor starts with, or the start of an anchor that the data does not complete. -/
inductive Verdict (data : List UInt8) : Except ParseError Anchor → Prop
  | fixed (x y : Int16) (starts : words16 [1, x.toUInt16, y.toUInt16] <+: data) : Verdict data (.ok (.fixed x y))
  | variable (x y : Int16) (xOuter xInner yOuter yInner : UInt16)
      (starts : words16 [3, x.toUInt16, y.toUInt16, 10, 16, xOuter, xInner, 0x8000, yOuter, yInner, 0x8000] <+: data) :
      Verdict data (.ok (.variable x y ⟨xOuter, xInner⟩ ⟨yOuter, yInner⟩))
  | otherFormat (format : UInt16) (starts : words16 [format] <+: data) (other : format ≠ 1 ∧ format ≠ 3) :
      Verdict data (.error .badVersion)
  | wrongDevice (x y xDevice yDevice : UInt16) (starts : words16 [3, x, y, xDevice, yDevice] <+: data)
      (wrong : ¬(xDevice = 10 ∧ yDevice = 16)) : Verdict data (.error .badValue)
  | wrongFirstVariation (x y xOuter xInner format : UInt16)
      (starts : words16 [3, x, y, 10, 16, xOuter, xInner, format] <+: data) (wrong : format ≠ 0x8000) :
      Verdict data (.error .badValue)
  | wrongSecondVariation (x y xOuter xInner yOuter yInner format : UInt16)
      (starts : words16 [3, x, y, 10, 16, xOuter, xInner, 0x8000, yOuter, yInner, format] <+: data)
      (wrong : format ≠ 0x8000) : Verdict data (.error .badValue)
  | endsInFormat (ends : data.length < 2) : Verdict data (.error .endOfData)
  | endsInPoint (starts : words16 [1] <+: data) (ends : data.length < 6) : Verdict data (.error .endOfData)
  | endsInDevices (starts : words16 [3] <+: data) (ends : data.length < 10) : Verdict data (.error .endOfData)
  | endsInFirstVariation (x y : UInt16) (starts : words16 [3, x, y, 10, 16] <+: data) (ends : data.length < 16) :
      Verdict data (.error .endOfData)
  | endsInSecondVariation (x y xOuter xInner : UInt16)
      (starts : words16 [3, x, y, 10, 16, xOuter, xInner, 0x8000] <+: data) (ends : data.length < 22) :
      Verdict data (.error .endOfData)

theorem exists_verdict_variable {data : List UInt8} {x y : UInt16} (starts : words16 [3, x, y, 10, 16] <+: data) :
    ∃ outcome, Verdict data outcome := by
  rcases Nat.lt_or_ge data.length 16 with ends | enough
  · exact ⟨_, .endsInFirstVariation x y starts ends⟩
  obtain ⟨xOuter, starts⟩ := exists_next_word starts (by simp; omega)
  obtain ⟨xInner, starts⟩ := exists_next_word starts (by simp; omega)
  obtain ⟨format, starts⟩ := exists_next_word starts enough
  by_cases right : format = 0x8000
  · subst right
    rcases Nat.lt_or_ge data.length 22 with ends | enough
    · exact ⟨_, .endsInSecondVariation x y xOuter xInner starts ends⟩
    obtain ⟨yOuter, starts⟩ := exists_next_word starts (by simp; omega)
    obtain ⟨yInner, starts⟩ := exists_next_word starts (by simp; omega)
    obtain ⟨format, starts⟩ := exists_next_word starts enough
    by_cases right : format = 0x8000
    · subst right
      rw [← x.toUInt16_toInt16, ← y.toUInt16_toInt16] at starts
      exact ⟨_, .variable x.toInt16 y.toInt16 xOuter xInner yOuter yInner starts⟩
    · exact ⟨_, .wrongSecondVariation x y xOuter xInner yOuter yInner format starts right⟩
  · exact ⟨_, .wrongFirstVariation x y xOuter xInner format starts right⟩

/-- There is a verdict on all data: the words are looked at one group after the other, and each group is wrong, is cut
off or leads on to the next. -/
theorem exists_verdict (data : List UInt8) : ∃ outcome, Verdict data outcome := by
  rcases Nat.lt_or_ge data.length 2 with ends | enough
  · exact ⟨_, .endsInFormat ends⟩
  have starts : words16 [] <+: data := List.nil_prefix
  obtain ⟨format, starts⟩ := exists_next_word starts enough
  by_cases one : format = 1
  · subst one
    rcases Nat.lt_or_ge data.length 6 with ends | enough
    · exact ⟨_, .endsInPoint starts ends⟩
    obtain ⟨x, starts⟩ := exists_next_word starts (by simp; omega)
    obtain ⟨y, starts⟩ := exists_next_word starts enough
    rw [← x.toUInt16_toInt16, ← y.toUInt16_toInt16] at starts
    exact ⟨_, .fixed x.toInt16 y.toInt16 starts⟩
  by_cases three : format = 3
  · subst three
    rcases Nat.lt_or_ge data.length 10 with ends | enough
    · exact ⟨_, .endsInDevices starts ends⟩
    obtain ⟨x, starts⟩ := exists_next_word starts (by simp; omega)
    obtain ⟨y, starts⟩ := exists_next_word starts (by simp; omega)
    obtain ⟨xDevice, starts⟩ := exists_next_word starts (by simp; omega)
    obtain ⟨yDevice, starts⟩ := exists_next_word starts enough
    by_cases right : xDevice = 10 ∧ yDevice = 16
    · obtain ⟨rfl, rfl⟩ := right
      exact exists_verdict_variable starts
    · exact ⟨_, .wrongDevice x y xDevice yDevice starts right⟩
  · exact ⟨_, .otherFormat format starts ⟨one, three⟩⟩

theorem rejects_other {format : UInt16} (other : format ≠ 1 ∧ format ≠ 3) (behind : List UInt8 → Prop) :
    Rejects read (words16 [format]) behind .badVersion := by
  refine Rejects.later (Reads.word16 format).step ?_
  rw [if_neg other.1, if_neg other.2]
  exact .throw _ _

theorem rejects_devices (x y : UInt16) {xDevice yDevice : UInt16} (wrong : ¬(xDevice = 10 ∧ yDevice = 16))
    (behind : List UInt8 → Prop) : Rejects read (words16 [3, x, y, xDevice, yDevice]) behind .badValue := by
  have fails : (xDevice == xDeviceOffset && yDevice == yDeviceOffset) = false := by
    rwa [← Bool.not_eq_true, Bool.and_eq_true, beq_iff_eq, beq_iff_eq]
  exact .later (Reads.word16 3).step (.later (Reads.int16_word x).step (.later (Reads.int16_word y).step
    (.later (Reads.word16 xDevice).step (.later (Reads.word16 yDevice).step (Rejects.check _ fails).first))))

theorem rejects_variation (outer inner : UInt16) {format : UInt16} (wrong : format ≠ 0x8000)
    (behind : List UInt8 → Prop) : Rejects readVariation (words16 [outer, inner, format]) behind .badValue := by
  have fails : (format == variationFormat) = false := beq_eq_false_iff_ne.mpr wrong
  exact .later (Reads.word16 outer).step (.later (Reads.word16 inner).step
    (.later (Reads.word16 format).step (Rejects.check _ fails).first))

theorem needs_variation : Needs 6 readVariation :=
  (Needs.step _).bind exists_reads_word16 fun _ => (Needs.step _).bind exists_reads_word16 fun _ => (Needs.step _).first

/-- Behind the right devices the two variations decide. -/
theorem rejects_behind_devices (x y : UInt16) {more : List UInt8} (rejects : Rejects (do
      let xVariation ← readVariation
      let yVariation ← readVariation
      return Anchor.variable x.toInt16 y.toInt16 xVariation yVariation) more behind error) :
    Rejects read (words16 [3, x, y, 10, 16] ++ more) behind error := by
  have steps : Rejects read (word16 3 ++ (word16 x ++ (word16 y ++ (word16 10 ++ (word16 16 ++ ([] ++ more)))))) behind
      error :=
    .later (Reads.word16 3).step (.later (Reads.int16_word x).step (.later (Reads.int16_word y).step
      (.later (Reads.word16 10).step (.later (Reads.word16 16).step (.later (Reads.check rfl) rejects)))))
  exact steps

theorem needs_point : Rejects read (words16 [1]) (fun left => left.length < 4) .endOfData :=
  .later (Reads.word16 1).step ((Needs.step _).bind exists_reads_int16 fun _ => (Needs.step _).first)

theorem needs_devices : Rejects read (words16 [3]) (fun left => left.length < 8) .endOfData :=
  .later (Reads.word16 3).step ((Needs.step _).bind exists_reads_int16 fun _ =>
    (Needs.step _).bind exists_reads_int16 fun _ => (Needs.step _).bind exists_reads_word16 fun _ =>
      (Needs.step _).first)

/-- What the data holds is what the reader answers, wherever the data stands. -/
theorem run_of_verdict {data : List UInt8} {outcome : Except ParseError Anchor} (verdict : Verdict data outcome)
    (base : Nat) (front : List UInt8) : ((Cursor.mk ⟨base, front ++ data⟩ front.length).run read).1 = outcome := by
  have found : ∀ anchor : Anchor, anchor.bytes <+: data →
      ((Cursor.mk ⟨base, front ++ data⟩ front.length).run read).1 = .ok anchor := by
    rintro anchor ⟨back, rfl⟩
    rw [← List.append_assoc, anchor.reads base front back]
  have anything : ∀ bytes back, data = bytes ++ back → True := fun _ _ _ => trivial
  have fewer : ∀ bytes (count : Nat), data.length < bytes.length + count →
      ∀ back, data = bytes ++ back → back.length < count := by
    rintro bytes count ends back rfl
    rw [List.length_append] at ends
    omega
  cases verdict with
  | fixed x y starts => exact found (.fixed x y) starts
  | «variable» x y xOuter xInner yOuter yInner starts =>
    exact found (.variable x y ⟨xOuter, xInner⟩ ⟨yOuter, yInner⟩) starts
  | otherFormat format starts other => exact (rejects_other other _).of_data starts (anything _) base front
  | wrongDevice x y xDevice yDevice starts wrong =>
    exact (rejects_devices x y wrong _).of_data starts (anything _) base front
  | wrongFirstVariation x y xOuter xInner format starts wrong =>
    exact (rejects_behind_devices x y (rejects_variation xOuter xInner wrong _).first).of_data starts (anything _) base
      front
  | wrongSecondVariation x y xOuter xInner yOuter yInner format starts wrong =>
    exact (rejects_behind_devices x y (.later (reads_variation ⟨xOuter, xInner⟩)
      (rejects_variation yOuter yInner wrong _).first)).of_data starts (anything _) base front
  | endsInFormat ends =>
    exact ((Needs.step _).first).of_data List.nil_prefix (fewer [] 2 ends) base front
  | endsInPoint starts ends => exact needs_point.of_data starts (fewer _ 4 ends) base front
  | endsInDevices starts ends => exact needs_devices.of_data starts (fewer _ 8 ends) base front
  | endsInFirstVariation x y starts ends =>
    exact (rejects_behind_devices x y needs_variation.first).of_data starts (fewer _ 6 ends) base front
  | endsInSecondVariation x y xOuter xInner starts ends =>
    exact (rejects_behind_devices x y (.later (reads_variation ⟨xOuter, xInner⟩) needs_variation.first)).of_data starts
      (fewer _ 6 ends) base front

theorem run_eq_iff_verdict {data : List UInt8} {outcome : Except ParseError Anchor} (base : Nat) (front : List UInt8) :
    ((Cursor.mk ⟨base, front ++ data⟩ front.length).run read).1 = outcome ↔ Verdict data outcome := by
  constructor
  · rintro rfl
    obtain ⟨outcome, verdict⟩ := exists_verdict data
    rwa [run_of_verdict verdict base front]
  · exact fun verdict => run_of_verdict verdict base front

theorem starts_of_verdict {data : List UInt8} {anchor : Anchor} (verdict : Verdict data (.ok anchor)) :
    anchor.bytes <+: data := by
  cases verdict with
  | fixed x y starts => exact starts
  | «variable» x y xOuter xInner yOuter yInner starts => exact starts

end Anchor

/-- Anchors are inverted in both directions. An anchor has its size in bytes, and wherever these stand they read back as
the anchor, and a reader moves exactly past them. On any data, wherever it stands, the reader answers what the words at
its start say: it succeeds exactly on the words of an anchor, and otherwise refuses a format that it does not know, a
wrong device or variation, or the end of the data, whichever comes first. Where it succeeds the bytes of the anchor are
those that it has passed. -/
theorem Anchor.anchors_are_inverted :
    (∀ anchor : Anchor, anchor.bytes.length = anchor.size ∧ ∀ base front back,
      (Cursor.mk ⟨base, front ++ anchor.bytes ++ back⟩ front.length).run read =
        (.ok anchor, ⟨⟨base, front ++ anchor.bytes ++ back⟩, front.length + anchor.size⟩)) ∧
    ∀ (base : Nat) (front data : List UInt8),
      (∀ outcome, ((Cursor.mk ⟨base, front ++ data⟩ front.length).run read).1 = outcome ↔ Verdict data outcome) ∧
      ∀ anchor after, (Cursor.mk ⟨base, front ++ data⟩ front.length).run read = (.ok anchor, after) ↔
        anchor.bytes <+: data ∧ after = ⟨⟨base, front ++ data⟩, front.length + anchor.size⟩ := by
  have moves : ∀ (anchor : Anchor) base front back,
      (Cursor.mk ⟨base, front ++ anchor.bytes ++ back⟩ front.length).run read =
        (.ok anchor, ⟨⟨base, front ++ anchor.bytes ++ back⟩, front.length + anchor.size⟩) := by
    intro anchor base front back
    rw [anchor.reads base front back, anchor.bytes_length]
  refine ⟨fun anchor => ⟨anchor.bytes_length, moves anchor⟩, ?_⟩
  intro base front data
  refine ⟨fun outcome => run_eq_iff_verdict base front, fun anchor after => ?_⟩
  constructor
  · intro run
    have starts := starts_of_verdict ((run_eq_iff_verdict base front).mp (congrArg Prod.fst run))
    obtain ⟨back, rfl⟩ := starts
    rw [← List.append_assoc, moves] at run
    cases run
    exact ⟨List.prefix_append _ _, by rw [List.append_assoc]⟩
  · rintro ⟨⟨back, rfl⟩, rfl⟩
    rw [← List.append_assoc, moves]

end Kashida
