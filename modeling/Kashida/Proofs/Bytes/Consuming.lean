import Kashida.Proofs.Bytes.Reading

/-! What a reader that succeeds has consumed. Where `Reads` says that the bytes of a writer are read back, the
statements here go the other way: a value that was read is written with exactly the bytes that were passed. -/
namespace Kashida

theorem word16_word16At (a b : UInt8) : word16 (word16At a b) = [a, b] := by
  have high := a.toNat_lt
  have low := b.toNat_lt
  have number : (word16At a b).toNat = a.toNat * 256 + b.toNat := by
    rw [word16At, UInt16.toNat_ofNat']
    omega
  rw [word16, number, List.cons.injEq, List.cons.injEq]
  refine ⟨UInt8.toNat_inj.mp ?_, UInt8.toNat_inj.mp ?_, rfl⟩
  · rw [UInt8.toNat_ofNat']
    omega
  · rw [UInt8.toNat_ofNat']
    omega

namespace Cursor

/-- The bytes come next in the data, and the second cursor is the first one moved past them. -/
def Consumes (cursor : Cursor) (bytes : List UInt8) (after : Cursor) : Prop :=
  bytes <+: cursor.scope.data.drop cursor.consumed ∧ after = { cursor with consumed := cursor.consumed + bytes.length }

theorem Consumes.nothing (cursor : Cursor) : cursor.Consumes [] cursor := ⟨List.nil_prefix, rfl⟩

theorem Consumes.append {cursor middle after : Cursor} (first : cursor.Consumes bytes middle)
    (second : middle.Consumes more after) : cursor.Consumes (bytes ++ more) after := by
  obtain ⟨⟨behind, next⟩, rfl⟩ := first
  obtain ⟨⟨rest, there⟩, rfl⟩ := second
  refine ⟨⟨rest, ?_⟩, by rw [List.length_append, Nat.add_assoc]⟩
  have left : behind = cursor.scope.data.drop (cursor.consumed + bytes.length) := by
    rw [← List.drop_drop, ← next, List.drop_left]
  rw [← next, left, ← there, List.append_assoc]

theorem run_bind_eq_ok_iff {cursor after : Cursor} {read : ReadM ε α} {next : α → ReadM ε β} :
    cursor.run (read >>= next) = (.ok result, after) ↔
      ∃ value middle, cursor.run read = (.ok value, middle) ∧ middle.run (next value) = (.ok result, after) := by
  rw [run_bind]
  obtain ⟨outcome, middle⟩ := cursor.run read
  cases outcome with
  | error error => simp
  | ok value =>
    constructor
    · intro run
      exact ⟨value, middle, rfl, run⟩
    · rintro ⟨_, _, same, run⟩
      cases same
      exact run

theorem run_pure_eq_ok_iff {cursor after : Cursor} {value result : α} :
    cursor.run (pure value : ReadM ε α) = (.ok result, after) ↔ value = result ∧ cursor = after := by
  show ((Except.ok value, cursor) : Except ε α × Cursor) = _ ↔ _
  rw [Prod.mk.injEq, Except.ok.injEq]

theorem run_step_eq_ok_iff {cursor after : Cursor} {read : ReadM EndOfData α} :
    cursor.run (step read) = (.ok value, after) ↔ cursor.run read = (.ok value, after) := by
  simp only [run, step]
  obtain ⟨outcome, middle⟩ := read cursor
  cases outcome <;> simp

theorem consumes_of_take {cursor after : Cursor} (run : cursor.run (take count) = (.ok bytes, after)) :
    bytes.length = count ∧ cursor.Consumes bytes after := by
  rw [run_take] at run
  split at run
  · rename_i fits
    cases run
    have length : ((cursor.scope.data.drop cursor.consumed).take count).length = count := by
      rw [List.length_take, List.length_drop]
      omega
    exact ⟨length, List.take_prefix _ _, by rw [length]⟩
  · cases run

theorem consumes_of_word16 {cursor after : Cursor} (run : cursor.run word16 = (.ok value, after)) :
    cursor.Consumes (Kashida.word16 value) after := by
  obtain ⟨bytes, middle, taken, rest⟩ := run_bind_eq_ok_iff.mp run
  obtain ⟨length, consumes⟩ := consumes_of_take taken
  match bytes, length with
  | [a, b], _ =>
    obtain ⟨rfl, rfl⟩ := run_pure_eq_ok_iff.mp rest
    rwa [word16_word16At]

theorem consumes_of_words16 {cursor after : Cursor} {values : List UInt16}
    (run : cursor.run (words16 count) = (.ok values, after)) :
    values.length = count ∧ cursor.Consumes (Kashida.words16 values) after := by
  induction count generalizing cursor values with
  | zero =>
    obtain ⟨rfl, rfl⟩ := run_pure_eq_ok_iff.mp run
    exact ⟨rfl, .nothing _⟩
  | succ count ih =>
    obtain ⟨first, next, firstRun, run⟩ := run_bind_eq_ok_iff.mp run
    obtain ⟨rest, last, restRun, run⟩ := run_bind_eq_ok_iff.mp run
    obtain ⟨rfl, rfl⟩ := run_pure_eq_ok_iff.mp run
    obtain ⟨length, consumes⟩ := ih restRun
    exact ⟨by rw [List.length_cons, length], (consumes_of_word16 firstRun).append consumes⟩

end Cursor

end Kashida
