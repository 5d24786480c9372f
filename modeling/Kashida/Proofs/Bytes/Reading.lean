import Kashida.Bytes.Cursor

/-! Readers that undo writers. A reader is judged against the bytes that a writer produces, wherever these stand in the
data; the judgement composes along the steps of a reader, so that tables are read back part by part. -/
namespace Kashida

theorem word16_length (x : UInt16) : (word16 x).length = 2 := rfl

theorem word32_length (x : UInt32) : (word32 x).length = 4 := rfl

theorem int16_length (x : Int16) : (int16 x).length = 2 := rfl

theorem length_flatMap_of_forall {write : α → List UInt8} {values : List α} (size : Nat)
    (each : ∀ value ∈ values, (write value).length = size) : (values.flatMap write).length = values.length * size := by
  induction values with
  | nil => simp
  | cons value values ih =>
    rw [List.flatMap_cons, List.length_append, each value List.mem_cons_self,
      ih fun other member => each other (List.mem_cons_of_mem _ member), List.length_cons, Nat.succ_mul, Nat.add_comm]

theorem words16_length (xs : List UInt16) : (words16 xs).length = xs.length * 2 :=
  length_flatMap_of_forall 2 fun _ _ => word16_length _

theorem words16_flatten (rows : List (List UInt16)) : words16 rows.flatten = rows.flatMap words16 := by
  induction rows with
  | nil => rfl
  | cons row rows ih =>
    rw [List.flatten_cons, List.flatMap_cons, ← ih]
    exact List.flatMap_append

theorem word16At_word16 (x : UInt16) : word16At (.ofNat (x.toNat / 256)) (.ofNat x.toNat) = x := by
  apply UInt16.toNat_inj.mp
  have bound := x.toNat_lt
  simp only [word16At, UInt16.toNat_ofNat', UInt8.toNat_ofNat']
  omega

theorem word32At_word32 (x : UInt32) :
    word32At (.ofNat (x.toNat / 16777216)) (.ofNat (x.toNat / 65536)) (.ofNat (x.toNat / 256))
      (.ofNat x.toNat) = x := by
  apply UInt32.toNat_inj.mp
  have bound := x.toNat_lt
  simp only [word32At, UInt32.toNat_ofNat', UInt8.toNat_ofNat']
  omega

namespace Cursor

theorem run_bind (cursor : Cursor) (read : ReadM ε α) (next : α → ReadM ε β) :
    cursor.run (read >>= next) = match cursor.run read with
      | (.ok value, cursor) => cursor.run (next value)
      | (.error error, cursor) => (.error error, cursor) := by
  simp only [run, bind, ExceptT.bind, ExceptT.mk, StateT.bind, ExceptT.bindCont]
  cases read cursor with
  | mk outcome cursor => cases outcome <;> rfl

theorem run_ensure (cursor : Cursor) (count : Nat) :
    cursor.run (ensure count) =
      (if cursor.consumed + count ≤ cursor.scope.data.length then .ok () else .error .endOfData, cursor) := by
  show cursor.run (if cursor.consumed + count ≤ cursor.scope.data.length then _ else _) = _
  split <;> rfl

theorem run_take (cursor : Cursor) (count : Nat) :
    cursor.run (take count) =
      if cursor.consumed + count ≤ cursor.scope.data.length then
        (.ok ((cursor.scope.data.drop cursor.consumed).take count),
          { cursor with consumed := cursor.consumed + count })
      else (.error .endOfData, cursor) := by
  by_cases fits : cursor.consumed + count ≤ cursor.scope.data.length
  · simp only [take, run_bind, run_ensure, if_pos fits]
    rfl
  · simp only [take, run_bind, run_ensure, if_neg fits]

/-- A reader that takes its bytes at once fails without them, and stays. -/
theorem run_take_bind_of_short {cursor : Cursor} (next : List UInt8 → ReadM EndOfData α)
    (short : cursor.scope.data.length < cursor.consumed + count) :
    cursor.run (take count >>= next) = (.error .endOfData, cursor) := by
  rw [run_bind, run_take, if_neg (Nat.not_le.mpr short)]

theorem run_take_bind_of_fits {cursor : Cursor} (next : List UInt8 → ReadM EndOfData α)
    (fits : cursor.consumed + count ≤ cursor.scope.data.length) :
    cursor.run (take count >>= next) = ({ cursor with consumed := cursor.consumed + count } : Cursor).run
      (next ((cursor.scope.data.drop cursor.consumed).take count)) := by
  rw [run_bind, run_take, if_pos fits]

def word32 : ReadM EndOfData UInt32 := do
  match ← take 4 with
  | [a, b, c, d] => return word32At a b c d
  | _ => throw .endOfData

end Cursor

/-- `read` finds `value` wherever `bytes` stand and moves exactly past them. -/
def Reads (read : ReadM ε α) (bytes : List UInt8) (value : α) : Prop :=
  ∀ (base : Nat) (front back : List UInt8),
    (Cursor.mk ⟨base, front ++ bytes ++ back⟩ front.length).run read =
      (.ok value, ⟨⟨base, front ++ bytes ++ back⟩, front.length + bytes.length⟩)

namespace Reads

theorem pure (value : α) : Reads (Pure.pure value : ReadM ε α) [] value := by
  intro base front back
  rfl

theorem bind {read : ReadM ε α} {next : α → ReadM ε β} (first : Reads read bytes value)
    (second : Reads (next value) more result) : Reads (read >>= next) (bytes ++ more) result := by
  intro base front back
  have start := first base front (more ++ back)
  have rest := second base (front ++ bytes) back
  simp only [List.append_assoc, List.length_append, Nat.add_assoc] at start rest ⊢
  rw [Cursor.run_bind, start]
  exact rest

/-- A step that reads nothing more, such as one that only checks or returns. -/
theorem bind_last {read : ReadM ε α} {next : α → ReadM ε β} (first : Reads read bytes value)
    (second : Reads (next value) [] result) : Reads (read >>= next) bytes result := by
  simpa only [List.append_nil] using first.bind second

theorem take (bytes : List UInt8) : Reads (Cursor.take bytes.length) bytes bytes := by
  intro base front back
  have fits : front.length + bytes.length ≤ (front ++ bytes ++ back).length := by
    simp only [List.length_append]
    omega
  rw [Cursor.run_take, if_pos fits]
  simp only [List.append_assoc, List.drop_left, List.take_left]

theorem word16 (x : UInt16) : Reads Cursor.word16 (Kashida.word16 x) x := by
  have found : Reads Cursor.word16 (Kashida.word16 x) (word16At (.ofNat (x.toNat / 256)) (.ofNat x.toNat)) :=
    (take (Kashida.word16 x)).bind_last (pure _)
  rwa [word16At_word16] at found

theorem int16 (x : Int16) : Reads Cursor.int16 (Kashida.int16 x) x := by
  have found : Reads Cursor.int16 (Kashida.int16 x)
      (word16At (.ofNat (x.toUInt16.toNat / 256)) (.ofNat x.toUInt16.toNat)).toInt16 :=
    (take (Kashida.int16 x)).bind_last (pure _)
  rwa [word16At_word16, Int16.toInt16_toUInt16] at found

theorem word32 (x : UInt32) : Reads Cursor.word32 (Kashida.word32 x) x := by
  have found : Reads Cursor.word32 (Kashida.word32 x)
      (word32At (.ofNat (x.toNat / 16777216)) (.ofNat (x.toNat / 65536)) (.ofNat (x.toNat / 256))
        (.ofNat x.toNat)) :=
    (take (Kashida.word32 x)).bind_last (pure _)
  rwa [word32At_word32] at found

theorem words16 (xs : List UInt16) : Reads (Cursor.words16 xs.length) (Kashida.words16 xs) xs := by
  induction xs with
  | nil => exact pure []
  | cons x xs ih => exact (word16 x).bind (ih.bind_last (pure _))

theorem step {read : ReadM EndOfData α} (inner : Reads read bytes value) : Reads (Cursor.step read) bytes value := by
  intro base front back
  have found := inner base front back
  simp only [Cursor.run, Cursor.step] at found ⊢
  rw [found]

theorem check (holds : condition = true) : Reads (Cursor.check condition) [] () := by
  subst holds
  exact pure ()

end Reads

/-- One value after the other. -/
def Cursor.repeated (read : ReadM ε α) : (count : Nat) → ReadM ε (List α)
  | 0 => return []
  | count + 1 => do
      let first ← read
      let rest ← repeated read count
      return first :: rest

theorem Reads.repeated {read : ReadM ε α} {write : β → List UInt8} {view : β → α} {items : List β}
    (each : ∀ item ∈ items, Reads read (write item) (view item)) :
    Reads (Cursor.repeated read items.length) (items.flatMap write) (items.map view) := by
  induction items with
  | nil => exact pure []
  | cons item items ih =>
    have rest := ih fun other member => each other (List.mem_cons_of_mem _ member)
    exact (each item List.mem_cons_self).bind (rest.bind_last (pure _))

theorem Reads.repeated_id {read : ReadM ε α} {write : α → List UInt8} {values : List α}
    (each : ∀ value ∈ values, Reads read (write value) value) :
    Reads (Cursor.repeated read values.length) (values.flatMap write) values := by
  simpa only [List.map_id] using @repeated _ _ _ _ _ id _ each

namespace Scope

/-- What a reader finds at a distance into a scope, and the absolute position behind it. -/
def readAt (scope : Scope) (distance : Nat) (read : ReadM ε α) : Except ε (α × Nat) :=
  match (scope.offset distance).cursor.run read with
  | (.ok value, cursor) => .ok (value, cursor.scope.base + cursor.consumed)
  | (.error error, _) => .error error

theorem offset_front (base : Nat) (front rest : List UInt8) :
    (Scope.mk base (front ++ rest)).offset front.length = ⟨base + front.length, rest⟩ := by
  have inside : min front.length (front ++ rest).length = front.length := by
    simp only [List.length_append]
    omega
  simp only [offset, inside, List.drop_left]

theorem readAt_of_reads {read : ReadM ε α} {scope : Scope} (found : Reads read bytes value)
    (placed : scope.data = front ++ bytes ++ back) :
    scope.readAt front.length read = .ok (value, scope.base + front.length + bytes.length) := by
  obtain ⟨base, data⟩ := scope
  subst placed
  have start := found (base + front.length) [] back
  simp only [List.nil_append, List.length_nil, Nat.zero_add] at start
  simp only [readAt, List.append_assoc, offset_front, cursor, start]

end Scope

end Kashida
