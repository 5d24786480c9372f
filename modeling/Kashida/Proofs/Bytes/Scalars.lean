import Kashida.Bytes.Buffer
import Kashida.Proofs.Bytes.Consuming
import Mathlib.Data.Nat.Digits.Defs

/-! Integers one after the other, of any mix of kinds. What was written is read back with the same kinds, and what was
read up to the end of the data is written with the same bytes. -/
namespace Kashida

/-- The number that bytes spell, the most significant first. -/
def bigEndian (bytes : List UInt8) : Nat := Nat.ofDigits 256 (bytes.reverse.map UInt8.toNat)

theorem bigEndian_word16 (x : UInt16) : bigEndian (word16 x) = x.toNat := by
  have bound := x.toNat_lt
  simp only [bigEndian, word16, List.reverse_cons, List.reverse_nil, List.nil_append, List.cons_append, List.map_cons,
    List.map_nil, Nat.ofDigits_cons, Nat.ofDigits_nil, UInt8.toNat_ofNat']
  omega

theorem bigEndian_word32 (x : UInt32) : bigEndian (word32 x) = x.toNat := by
  have bound := x.toNat_lt
  simp only [bigEndian, word32, List.reverse_cons, List.reverse_nil, List.nil_append, List.cons_append, List.map_cons,
    List.map_nil, Nat.ofDigits_cons, Nat.ofDigits_nil, UInt8.toNat_ofNat']
  omega

theorem word32_word32At (a b c d : UInt8) : word32 (word32At a b c d) = [a, b, c, d] := by
  have first := a.toNat_lt
  have second := b.toNat_lt
  have third := c.toNat_lt
  have fourth := d.toNat_lt
  have number : (word32At a b c d).toNat = ((a.toNat * 256 + b.toNat) * 256 + c.toNat) * 256 + d.toNat := by
    rw [word32At, UInt32.toNat_ofNat']
    omega
  simp only [word32, number, List.cons.injEq, ← UInt8.toNat_inj, UInt8.toNat_ofNat', and_true]
  omega

namespace Scalar

theorem bytes_length (value : Scalar) : value.bytes.length = value.kind.size := by
  cases value <;> rfl

/-- An integer is written in two's complement: its bytes spell it modulo the range of its kind. -/
theorem bigEndian_bytes (value : Scalar) :
    (bigEndian value.bytes : Int) = value.toInt % (Nat.pow 256 value.kind.size : Nat) := by
  have inRange : ∀ {number range : Nat}, number < range → (number : Int) = number % range := fun bound =>
    (Int.emod_eq_of_lt (Int.natCast_nonneg _) (Int.ofNat_lt.mpr bound)).symm
  cases value with
  | u16 x =>
    rw [bytes, bigEndian_word16]
    exact inRange x.toNat_lt
  | i16 x =>
    have signed : x.toInt = (x.toUInt16.toNat : Int).bmod (Nat.pow 256 2) := BitVec.toInt_eq_toNat_bmod x.toBitVec
    rw [bytes, int16, bigEndian_word16, toInt, kind, ScalarKind.size, signed, Int.bmod_emod]
    exact inRange x.toUInt16.toNat_lt
  | u32 x =>
    rw [bytes, bigEndian_word32]
    exact inRange x.toNat_lt
  | i32 x =>
    have signed : x.toInt = (x.toUInt32.toNat : Int).bmod (Nat.pow 256 4) := BitVec.toInt_eq_toNat_bmod x.toBitVec
    rw [bytes, int32, bigEndian_word32, toInt, kind, ScalarKind.size, signed, Int.bmod_emod]
    exact inRange x.toUInt32.toNat_lt

/-- The bytes of an integer hold the integer. -/
theorem ofBytes?_bytes (value : Scalar) : value.kind.ofBytes? value.bytes = some value := by
  cases value with
  | u16 x => exact congrArg (some <| u16 ·) (word16At_word16 x)
  | i16 x =>
    refine congrArg (some <| i16 ·) ?_
    rw [word16At_word16, Int16.toInt16_toUInt16]
  | u32 x => exact congrArg (some <| u32 ·) (word32At_word32 x)
  | i32 x =>
    refine congrArg (some <| i32 ·) ?_
    rw [word32At_word32, Int32.toInt32_toUInt32]

end Scalar

/-- Any bytes of the right number hold an integer of the kind, and they are its bytes. -/
theorem ScalarKind.exists_ofBytes? {kind : ScalarKind} {bytes : List UInt8} (right : bytes.length = kind.size) :
    ∃ value : Scalar, kind.ofBytes? bytes = some value ∧ value.kind = kind ∧ value.bytes = bytes := by
  match kind, bytes, right with
  | .u16, [a, b], _ => exact ⟨_, rfl, rfl, word16_word16At a b⟩
  | .i16, [a, b], _ =>
    refine ⟨_, rfl, rfl, ?_⟩
    rw [Scalar.bytes, int16, UInt16.toUInt16_toInt16, word16_word16At]
  | .u32, [a, b, c, d], _ => exact ⟨_, rfl, rfl, word32_word32At a b c d⟩
  | .i32, [a, b, c, d], _ =>
    refine ⟨_, rfl, rfl, ?_⟩
    rw [Scalar.bytes, int32, UInt32.toUInt32_toInt32, word32_word32At]

namespace Cursor

/-- Integers of these kinds, one after the other. -/
def scalars : List ScalarKind → ReadM EndOfData (List Scalar)
  | [] => return []
  | kind :: kinds => do
      let first ← scalar kind
      let rest ← scalars kinds
      return first :: rest

theorem consumes_of_scalar {cursor after : Cursor} {kind : ScalarKind} {value : Scalar}
    (run : cursor.run (scalar kind) = (.ok value, after)) :
    value.kind = kind ∧ cursor.Consumes value.bytes after := by
  obtain ⟨bytes, middle, taken, rest⟩ := run_bind_eq_ok_iff.mp run
  obtain ⟨length, consumes⟩ := consumes_of_take taken
  obtain ⟨found, holds, isKind, rfl⟩ := ScalarKind.exists_ofBytes? length
  rw [holds] at rest
  obtain ⟨rfl, rfl⟩ := run_pure_eq_ok_iff.mp rest
  exact ⟨isKind, consumes⟩

theorem consumes_of_scalars {cursor after : Cursor} {kinds : List ScalarKind} {values : List Scalar}
    (run : cursor.run (scalars kinds) = (.ok values, after)) :
    values.map Scalar.kind = kinds ∧ cursor.Consumes (values.flatMap Scalar.bytes) after := by
  induction kinds generalizing cursor values with
  | nil =>
    obtain ⟨rfl, rfl⟩ := run_pure_eq_ok_iff.mp run
    exact ⟨rfl, .nothing _⟩
  | cons kind kinds ih =>
    obtain ⟨first, next, firstRun, run⟩ := run_bind_eq_ok_iff.mp run
    obtain ⟨rest, last, restRun, run⟩ := run_bind_eq_ok_iff.mp run
    obtain ⟨rfl, rfl⟩ := run_pure_eq_ok_iff.mp run
    obtain ⟨rfl, firstConsumed⟩ := consumes_of_scalar firstRun
    obtain ⟨rfl, restConsumed⟩ := ih restRun
    exact ⟨rfl, firstConsumed.append restConsumed⟩

end Cursor

namespace Reads

theorem scalar (value : Scalar) : Reads (Cursor.scalar value.kind) value.bytes value := by
  have taken := take value.bytes
  rw [value.bytes_length] at taken
  refine taken.bind_last ?_
  rw [value.ofBytes?_bytes]
  exact pure value

theorem scalars (values : List Scalar) :
    Reads (Cursor.scalars (values.map Scalar.kind)) (values.flatMap Scalar.bytes) values := by
  induction values with
  | nil => exact pure []
  | cons value values ih => exact (scalar value).bind (ih.bind_last (pure _))

end Reads

namespace Buffer

/-- Appends integers in order. -/
def appendScalars (buffer : Buffer) (values : List Scalar) : Buffer :=
  values.foldl (fun buffer value => buffer.append value.bytes) buffer

theorem bytes_appendScalars (buffer : Buffer) (values : List Scalar) :
    (buffer.appendScalars values).bytes = buffer.bytes ++ values.flatMap Scalar.bytes := by
  induction values generalizing buffer with
  | nil => exact (List.append_nil _).symm
  | cons value values ih =>
    rw [appendScalars, List.foldl_cons, ← appendScalars, ih, append, List.flatMap_cons, List.append_assoc]

/-- Integers round-trip as sequences. Each is written in as many bytes as its kind has, the most significant first and
in two's complement. Integers that are appended to a buffer are read back, from where the buffer ended before, with the
same kinds; a reader is then at the end of the bytes, where no further integer is read and the reader stays. Reading
integers of given kinds takes all of the data exactly if they have these kinds and writing them gives the data. -/
theorem scalars_round_trip :
    (∀ value : Scalar, value.bytes.length = value.kind.size ∧
      (bigEndian value.bytes : Int) = value.toInt % (Nat.pow 256 value.kind.size : Nat)) ∧
    (∀ (buffer : Buffer) (values : List Scalar),
      (Cursor.mk (.ofBytes (buffer.appendScalars values).bytes) buffer.size).run
          (Cursor.scalars (values.map Scalar.kind)) =
        (.ok values, ⟨.ofBytes (buffer.appendScalars values).bytes, (buffer.appendScalars values).size⟩) ∧
      ∀ kind, (Cursor.mk (.ofBytes (buffer.appendScalars values).bytes) (buffer.appendScalars values).size).run
          (Cursor.scalar kind) =
        (.error .endOfData, ⟨.ofBytes (buffer.appendScalars values).bytes, (buffer.appendScalars values).size⟩)) ∧
    ∀ (kinds : List ScalarKind) (data : List UInt8) (values : List Scalar),
      (Scope.ofBytes data).cursor.run (Cursor.scalars kinds) = (.ok values, ⟨.ofBytes data, data.length⟩) ↔
        values.map Scalar.kind = kinds ∧ (appendScalars {} values).bytes = data := by
  refine ⟨fun value => ⟨value.bytes_length, value.bigEndian_bytes⟩, fun buffer values => ⟨?_, fun kind => ?_⟩, ?_⟩
  · have found := Reads.scalars values 0 buffer.bytes []
    rwa [List.append_nil, ← bytes_appendScalars, ← List.length_append, ← bytes_appendScalars] at found
  · refine Cursor.run_take_bind_of_short _ (Nat.lt_add_of_pos_right ?_)
    cases kind <;> decide
  · intro kinds data values
    rw [bytes_appendScalars, List.nil_append]
    constructor
    · intro run
      obtain ⟨sameKinds, starts, moved⟩ := Cursor.consumes_of_scalars run
      have all : data.length = 0 + (values.flatMap Scalar.bytes).length := congrArg Cursor.consumed moved
      rw [Nat.zero_add] at all
      exact ⟨sameKinds, starts.eq_of_length all.symm⟩
    · rintro ⟨rfl, rfl⟩
      have found := Reads.scalars values 0 [] []
      rwa [List.nil_append, List.append_nil, List.length_nil, Nat.zero_add] at found

end Buffer

end Kashida
