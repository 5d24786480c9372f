import Kashida.Proofs.Bytes.Consuming

/-! Readers that give up: which bytes make a reader fail, and how many bytes it asks for. Like the judgement of what is
read back, these compose along the steps of a reader. -/
namespace Kashida

/-- Words at the start of the data are followed by one more, unless the data ends. -/
theorem exists_next_word {known : List UInt16} {data : List UInt8} (starts : words16 known <+: data)
    (enough : known.length * 2 + 2 ≤ data.length) : ∃ word, words16 (known ++ [word]) <+: data := by
  obtain ⟨rest, rfl⟩ := starts
  rw [List.length_append, words16_length] at enough
  match rest with
  | a :: b :: rest =>
    refine ⟨word16At a b, rest, ?_⟩
    rw [words16, List.flatMap_append, List.flatMap_singleton, word16_word16At, List.append_assoc]
    rfl
  | [_] | [] =>
    simp only [List.length_cons, List.length_nil] at enough
    omega

/-- A reader fails where its first step does. -/
theorem Cursor.run_bind_of_error {cursor : Cursor} {read : ReadM ε α} {next : α → ReadM ε β}
    (failed : (cursor.run read).1 = .error error) : (cursor.run (read >>= next)).1 = .error error := by
  rw [run_bind]
  generalize cursor.run read = found at failed ⊢
  obtain ⟨outcome, after⟩ := found
  subst failed
  rfl

/-- `read` fails with `error` wherever `bytes` stand and what is left behind them has the property. -/
def Rejects (read : ReadM ε α) (bytes : List UInt8) (behind : List UInt8 → Prop) (error : ε) : Prop :=
  ∀ (base : Nat) (front back : List UInt8), behind back →
    ((Cursor.mk ⟨base, front ++ bytes ++ back⟩ front.length).run read).1 = .error error

namespace Rejects

theorem throw (behind : List UInt8 → Prop) (error : ε) :
    Rejects (MonadExcept.throw error : ReadM ε α) [] behind error := by
  intro base front back _
  rfl

theorem check (behind : List UInt8 → Prop) (fails : condition = false) :
    Rejects (Cursor.check condition) [] behind .badValue := by
  subst fails
  exact throw _ _

theorem first {read : ReadM ε α} {next : α → ReadM ε β} (rejects : Rejects read bytes behind error) :
    Rejects (read >>= next) bytes behind error :=
  fun base front back left => Cursor.run_bind_of_error (rejects base front back left)

theorem later {read : ReadM ε α} {next : α → ReadM ε β} (found : Reads read bytes value)
    (rejects : Rejects (next value) more behind error) : Rejects (read >>= next) (bytes ++ more) behind error := by
  intro base front back left
  have start := found base front (more ++ back)
  have failed := rejects base (front ++ bytes) back left
  simp only [List.append_assoc, List.length_append] at start failed ⊢
  rw [Cursor.run_bind, start]
  exact failed

/-- On data that starts with the bytes. -/
theorem of_data {read : ReadM ε α} (rejects : Rejects read bytes behind error) (starts : bytes <+: data)
    (left : ∀ back, data = bytes ++ back → behind back) (base : Nat) (front : List UInt8) :
    ((Cursor.mk ⟨base, front ++ data⟩ front.length).run read).1 = .error error := by
  obtain ⟨back, rfl⟩ := starts
  rw [← List.append_assoc]
  exact rejects base front back (left back rfl)

end Rejects

/-- Where fewer than `count` bytes are left, `read` finds the end of the data. -/
def Needs (count : Nat) (read : ReadM ParseError α) : Prop :=
  Rejects read [] (fun left => left.length < count) .endOfData

namespace Needs

theorem bind {read : ReadM ParseError α} {next : α → ReadM ParseError β} (needs : Needs count read)
    (reads : ∀ bytes, bytes.length = count → ∃ value, Reads read bytes value)
    (rest : ∀ value, Needs more (next value)) : Needs (count + more) (read >>= next) := by
  intro base front left short
  rcases Nat.lt_or_ge left.length count with fewer | enough
  · exact needs.first base front left fewer
  · obtain ⟨value, found⟩ := reads (left.take count) (List.length_take_of_le enough)
    have fewer : (left.drop count).length < more := by
      rw [List.length_drop]
      omega
    have failed := Rejects.later found (rest value) base front (left.drop count) fewer
    rw [List.append_nil]
    rwa [List.append_nil, List.append_assoc, List.take_append_drop] at failed

/-- A step that takes its bytes at once. -/
theorem step (next : List UInt8 → ReadM EndOfData α) : Needs count (Cursor.step (Cursor.take count >>= next)) := by
  intro base front left short
  have outside : (front ++ [] ++ left).length < front.length + count := by
    rw [List.append_nil, List.length_append]
    omega
  have failed : (Cursor.mk ⟨base, front ++ [] ++ left⟩ front.length).run (Cursor.take count >>= next) = _ :=
    Cursor.run_take_bind_of_short next outside
  simp only [Cursor.run, Cursor.step] at failed ⊢
  rw [failed]

end Needs

theorem Reads.int16_word (x : UInt16) : Reads Cursor.int16 (Kashida.word16 x) x.toInt16 := by
  rw [← x.toUInt16_toInt16]
  exact Reads.int16 x.toInt16

theorem exists_reads_word16 (bytes : List UInt8) (two : bytes.length = 2) :
    ∃ value, Reads (Cursor.step Cursor.word16) bytes value := by
  match bytes, two with
  | [a, b], _ =>
    rw [← word16_word16At]
    exact ⟨_, (Reads.word16 _).step⟩

theorem exists_reads_int16 (bytes : List UInt8) (two : bytes.length = 2) :
    ∃ value, Reads (Cursor.step Cursor.int16) bytes value := by
  match bytes, two with
  | [a, b], _ =>
    rw [← word16_word16At]
    exact ⟨_, (Reads.int16_word _).step⟩

end Kashida
