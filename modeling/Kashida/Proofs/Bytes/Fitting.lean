import Kashida.Proofs.Bytes.Placement

/-! Which failure is reported when numbers are too large for their 16-bit fields: that of the first such field in the
order of writing. The judgement composes along the steps of a writer. -/
namespace Kashida

/-- The failure of the first number that has more than 16 bits; each number stands with the failure that it would
cause. -/
def firstExcess (fields : List (WriteError × Nat)) : Option WriteError :=
  (fields.find? fun field => 65535 < field.2).map Prod.fst

theorem firstExcess_append (fields more : List (WriteError × Nat)) :
    firstExcess (fields ++ more) = (firstExcess fields).or (firstExcess more) := by
  rw [firstExcess, List.find?_append, Option.map_or]
  rfl

theorem firstExcess_eq_none_iff {fields : List (WriteError × Nat)} :
    firstExcess fields = none ↔ ∀ field ∈ fields, field.2 ≤ 65535 := by
  simp [firstExcess]

/-- The outcome of a writer is a failure exactly if one of these numbers does not fit, and then that of the first. -/
def Checks (outcome : Except WriteError α) (fields : List (WriteError × Nat)) : Prop :=
  ∀ error, outcome = .error error ↔ firstExcess fields = some error

namespace Checks

theorem exists_ok_iff {outcome : Except WriteError α} (checks : Checks outcome fields) :
    (∃ value, outcome = .ok value) ↔ ∀ field ∈ fields, field.2 ≤ 65535 := by
  rw [← firstExcess_eq_none_iff, Option.eq_none_iff_forall_ne_some]
  cases outcome with
  | ok value =>
    refine ⟨fun _ error found => ?_, fun _ => ⟨value, rfl⟩⟩
    cases (checks error).mpr found
  | error error =>
    refine ⟨?_, fun fits => absurd ((checks error).mp rfl) (fits error)⟩
    rintro ⟨_, impossible⟩
    cases impossible

theorem ok (value : α) : Checks (.ok value) [] := by
  intro error
  constructor <;> intro impossible <;> cases impossible

theorem count (n : Nat) : Checks (count16 n) [(.badValue, n)] := by
  intro error
  rw [count16_eq_error_iff, firstExcess, List.find?_singleton]
  by_cases large : 65535 < n <;> simp [large, eq_comm]

theorem offset (n : Nat) : Checks (offset16 n) [(.offsetOverflow, n)] := by
  intro error
  rw [offset16_eq_error_iff, firstExcess, List.find?_singleton]
  by_cases large : 65535 < n <;> simp [large, eq_comm]

theorem bind {outcome : Except WriteError α} {next : α → Except WriteError β} (first : Checks outcome fields)
    (rest : ∀ value, outcome = .ok value → Checks (next value) more) : Checks (outcome >>= next) (fields ++ more) := by
  intro error
  rw [firstExcess_append]
  cases outcome with
  | error early =>
    rw [(first early).mp rfl, Option.some_or, Option.some.injEq]
    exact Iff.of_eq (Except.error.injEq early error)
  | ok value =>
    have fits : firstExcess fields = none := firstExcess_eq_none_iff.mpr (first.exists_ok_iff.mp ⟨value, rfl⟩)
    rw [fits, Option.none_or]
    exact rest value rfl error

/-- Steps behind which nothing can fail. -/
theorem bind_last {outcome : Except WriteError α} {next : α → Except WriteError β} (first : Checks outcome fields)
    (rest : ∀ value, outcome = .ok value → ∃ result, next value = .ok result) : Checks (outcome >>= next) fields := by
  have whole := first.bind fun value success => (rest value success).elim fun result same => same ▸ Checks.ok result
  rwa [List.append_nil] at whole

/-- Of blocks that follow one another each has its offset checked and then what is in it. -/
theorem placeBlocks {encode : α → Except WriteError (List UInt8)} {size : α → Nat}
    {inside : α → List (WriteError × Nat)} (sizes : ∀ item block, encode item = .ok block → block.length = size item)
    (each : ∀ item, Checks (encode item) (inside item)) (start : Nat) (items : List α) :
    Checks (Kashida.placeBlocks encode start items) (items.zipIdx.flatMap fun entry =>
      (.offsetOverflow, start + ((items.take entry.2).map size).sum) :: inside entry.1) := by
  induction items generalizing start with
  | nil => exact ok _
  | cons item items ih =>
    have fields : ((item :: items).zipIdx.flatMap fun entry =>
          (WriteError.offsetOverflow, start + (((item :: items).take entry.2).map size).sum) :: inside entry.1) =
        [(.offsetOverflow, start)] ++ (inside item ++ items.zipIdx.flatMap fun entry =>
          (.offsetOverflow, start + size item + ((items.take entry.2).map size).sum) :: inside entry.1) := by
      rw [List.zipIdx_cons', List.flatMap_cons, List.flatMap_map]
      simp [Nat.add_assoc]
    rw [fields]
    refine (offset start).bind fun _ _ => (each item).bind fun block encoded => ?_
    rw [sizes item block encoded]
    exact (ih (start + size item)).bind_last fun placed _ => ⟨_, rfl⟩

end Checks

end Kashida
