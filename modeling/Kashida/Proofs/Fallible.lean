import Kashida.Error
import Mathlib.Data.List.Forall2

/-! Chains of steps that may fail, taken apart where they succeed. -/
namespace Kashida

theorem bind_eq_ok_iff {first : Except ε α} {next : α → Except ε β} :
    (first >>= next) = .ok result ↔ ∃ value, first = .ok value ∧ next value = .ok result := by
  cases first with
  | error error => simp [bind, Except.bind]
  | ok value => simp [bind, Except.bind]

theorem pure_eq_ok_iff {value result : α} : (pure value : Except ε α) = .ok result ↔ value = result := by
  simp [pure, Except.pure]

theorem bind_eq_error_iff {first : Except ε α} {next : α → Except ε β} :
    (first >>= next) = .error error ↔
      first = .error error ∨ ∃ value, first = .ok value ∧ next value = .error error := by
  cases first with
  | error error => simp [bind, Except.bind]
  | ok value => simp [bind, Except.bind]

theorem exists_of_isOk {outcome : Except ε α} (success : outcome.isOk = true) : ∃ value, outcome = .ok value := by
  cases outcome with
  | error error => cases success
  | ok value => exact ⟨value, rfl⟩

theorem exists_of_any {outcome : Except ε α} {test : α → Bool} (success : outcome.toOption.any test = true) :
    ∃ value, outcome = .ok value ∧ test value = true := by
  cases outcome with
  | ok value => exact ⟨value, rfl, success⟩
  | error error => cases success

theorem mapM_eq_ok_iff {step : α → Except ε β} {values : List α} {results : List β} :
    values.mapM step = .ok results ↔ List.Forall₂ (fun value result => step value = .ok result) values results := by
  induction values generalizing results with
  | nil =>
    simp only [List.mapM_nil, pure_eq_ok_iff, List.forall₂_nil_left_iff]
    exact eq_comm
  | cons value values ih =>
    simp only [List.mapM_cons, bind_eq_ok_iff, pure_eq_ok_iff, ih, List.forall₂_cons_left_iff]
    constructor
    · rintro ⟨result, here, rest, there, rfl⟩
      exact ⟨result, rest, here, there, rfl⟩
    · rintro ⟨result, rest, here, there, rfl⟩
      exact ⟨result, here, rest, there, rfl⟩

theorem mapM_congr [Monad m] [LawfulMonad m] {step other : α → m β} {values : List α}
    (same : ∀ value ∈ values, step value = other value) : values.mapM step = values.mapM other := by
  induction values with
  | nil => rw [List.mapM_nil, List.mapM_nil]
  | cons value values ih =>
    rw [List.mapM_cons, List.mapM_cons, same value List.mem_cons_self,
      ih fun later member => same later (List.mem_cons_of_mem value member)]

theorem exists_of_forall₂ {relation : α → β → Prop} {values : List α} {results : List β}
    (each : List.Forall₂ relation values results) (member : result ∈ results) :
    ∃ value ∈ values, relation value result := by
  induction each with
  | nil => cases member
  | cons here _ ih =>
    rcases List.mem_cons.mp member with rfl | later
    · exact ⟨_, List.mem_cons_self, here⟩
    · obtain ⟨value, present, related⟩ := ih later
      exact ⟨value, List.mem_cons_of_mem _ present, related⟩

/-- The partner of an element stands at the same place. -/
theorem exists_getElem?_of_forall₂ {relation : α → β → Prop} {values : List α} {results : List β}
    (each : List.Forall₂ relation values results) {index : Nat} (found : values[index]? = some value) :
    ∃ result, results[index]? = some result ∧ relation value result := by
  induction each generalizing index with
  | nil => cases found
  | cons here _ ih =>
    cases index with
    | zero =>
      cases found
      exact ⟨_, rfl, here⟩
    | succ index => exact ih found

/-- Partners are related in pairs as their elements are. -/
theorem pairwise_iff_of_forall₂ {relation : α → β → Prop} {early : α → α → Prop} {late : β → β → Prop}
    {values : List α} {results : List β} (each : List.Forall₂ relation values results)
    (agree : values.Pairwise fun value other => ∀ result otherResult, relation value result →
      relation other otherResult → (early value other ↔ late result otherResult)) :
    values.Pairwise early ↔ results.Pairwise late := by
  induction each with
  | nil => simp
  | cons here rest ih =>
    obtain ⟨first, others⟩ := List.pairwise_cons.mp agree
    rw [List.pairwise_cons, List.pairwise_cons, ih others]
    apply and_congr_left
    intro _
    constructor
    · intro all result member
      obtain ⟨value, present, related⟩ := exists_of_forall₂ rest member
      exact (first value present _ _ here related).mp (all value present)
    · intro all value member
      obtain ⟨result, present, related⟩ := exists_of_forall₂ rest.flip member
      exact (first value member _ _ here related).mpr (all result present)

theorem exists_common {first second : α → β → Prop} {values : List α} {results : List β}
    (each : List.Forall₂ first values results) (eachToo : List.Forall₂ second values results)
    (member : value ∈ values) : ∃ result, first value result ∧ second value result := by
  induction each with
  | nil => cases member
  | cons here _ ih =>
    cases eachToo with
    | cons hereToo rest =>
      rcases List.mem_cons.mp member with rfl | later
      · exact ⟨_, here, hereToo⟩
      · exact ih rest later

theorem exists_forall₂_iff {relation : α → β → Prop} {values : List α} :
    (∃ results, List.Forall₂ relation values results) ↔ ∀ value ∈ values, ∃ result, relation value result := by
  induction values with
  | nil => simp
  | cons value values ih =>
    simp only [List.forall₂_cons_left_iff, List.forall_mem_cons, ← ih]
    constructor
    · rintro ⟨_, result, results, here, there, rfl⟩
      exact ⟨⟨result, here⟩, results, there⟩
    · rintro ⟨⟨result, here⟩, results, there⟩
      exact ⟨_, result, results, here, there, rfl⟩

/-- Partners that lead on to values which both sides are related to. -/
theorem exists_images {relation : α → β → Prop} {early : β → γ → Prop} {late : α → γ → Prop} {values : List α}
    {results : List β} (each : List.Forall₂ relation values results)
    (leads : ∀ value result, relation value result → ∃ image, early result image ∧ late value image) :
    ∃ images, List.Forall₂ early results images ∧ List.Forall₂ late values images := by
  induction each with
  | nil => exact ⟨[], .nil, .nil⟩
  | cons here _ ih =>
    obtain ⟨image, first, second⟩ := leads _ _ here
    obtain ⟨images, firsts, seconds⟩ := ih
    exact ⟨image :: images, .cons first firsts, .cons second seconds⟩

theorem forall₂_trans {early : α → β → Prop} {late : β → γ → Prop} {whole : α → γ → Prop} {firsts : List α}
    {seconds : List β} {thirds : List γ} (compose : ∀ a b c, early a b → late b c → whole a c)
    (start : List.Forall₂ early firsts seconds) (rest : List.Forall₂ late seconds thirds) :
    List.Forall₂ whole firsts thirds := by
  induction start generalizing thirds with
  | nil =>
    cases rest
    exact .nil
  | cons here _ ih =>
    cases rest with
    | cons there rest => exact .cons (compose _ _ _ here there) (ih rest)

theorem map_eq_map_iff {one : α → γ} {other : β → γ} {values : List α} {results : List β} :
    values.map one = results.map other ↔
      List.Forall₂ (fun value result => one value = other result) values results := by
  rw [← List.forall₂_eq_eq_eq, List.forall₂_map_left_iff, List.forall₂_map_right_iff]

/-- Values grouped like their partners. -/
theorem exists_groups {relation : α → β → Prop} {values : List α} {groups : List (List β)}
    (each : List.Forall₂ relation values groups.flatten) :
    ∃ grouped, grouped.flatten = values ∧ List.Forall₂ (List.Forall₂ relation) grouped groups := by
  induction groups generalizing values with
  | nil =>
    cases each
    exact ⟨[], rfl, .nil⟩
  | cons group groups ih =>
    obtain ⟨grouped, rest, later⟩ := ih (List.forall₂_drop_append values group groups.flatten each)
    refine ⟨values.take group.length :: grouped, ?_, .cons (List.forall₂_take_append values group _ each) later⟩
    rw [List.flatten_cons, rest, List.take_append_drop]

/-- Other partners for all elements, which are the same as before where those of each element are. -/
theorem exists_partners {relation : α → β → Prop} {agrees : α → Prop} {values : List α} {results : List β}
    (each : List.Forall₂ (fun value result => ∃ next, relation value next ∧ (next = result ↔ agrees value))
      values results) :
    ∃ others, List.Forall₂ relation values others ∧ (others = results ↔ ∀ value ∈ values, agrees value) := by
  induction each with
  | nil => exact ⟨[], .nil, by simp⟩
  | cons here _ ih =>
    obtain ⟨next, related, same⟩ := here
    obtain ⟨others, rest, sameRest⟩ := ih
    exact ⟨next :: others, .cons related rest, by rw [List.cons.injEq, same, sameRest, List.forall_mem_cons]⟩

/-- A relation along a list in which each element starts from the state that the one before it left. -/
inductive Threaded (relation : α → σ → β → σ → Prop) : σ → List α → List β → σ → Prop
  | nil : Threaded relation state [] [] state
  | cons (here : relation value before result middle) (rest : Threaded relation middle values results after) :
      Threaded relation before (value :: values) (result :: results) after

namespace Threaded

theorem append {relation : α → σ → β → σ → Prop} (first : Threaded relation before values results middle)
    (second : Threaded relation middle more others after) :
    Threaded relation before (values ++ more) (results ++ others) after := by
  induction first with
  | nil => exact second
  | cons here _ ih => exact .cons here (ih second)

theorem imp_of_mem {relation weaker : α → σ → β → σ → Prop}
    (threaded : Threaded relation before values results after)
    (implies : ∀ value ∈ values, ∀ before result after,
      relation value before result after → weaker value before result after) :
    Threaded weaker before values results after := by
  induction threaded with
  | nil => exact .nil
  | cons here _ ih =>
    refine .cons (implies _ List.mem_cons_self _ _ _ here) (ih fun value later => ?_)
    exact implies value (List.mem_cons_of_mem _ later)

theorem imp {relation weaker : α → σ → β → σ → Prop}
    (implies : ∀ value before result after, relation value before result after → weaker value before result after)
    (threaded : Threaded relation before values results after) : Threaded weaker before values results after :=
  threaded.imp_of_mem fun value _ => implies value

theorem map {relation : α → σ → β → σ → Prop} (view : γ → α)
    (threaded : Threaded (fun value => relation (view value)) before values results after) :
    Threaded relation before (values.map view) results after := by
  induction threaded with
  | nil => exact .nil
  | cons here _ ih => exact .cons here ih

/-- Groups of elements, each threaded in itself. -/
theorem flatten {relation : α → σ → β → σ → Prop} {group : γ → List α}
    (threaded : Threaded (fun value before results after => Threaded relation before (group value) results after) before
      values results after) : Threaded relation before (values.flatMap group) results.flatten after := by
  induction threaded with
  | nil => exact .nil
  | cons here _ ih => exact here.append ih

theorem forall₂ {relation : α → σ → β → σ → Prop} (threaded : Threaded relation before values results after) :
    List.Forall₂ (fun value result => ∃ before after, relation value before result after) values results := by
  induction threaded with
  | nil => exact .nil
  | cons here _ ih => exact .cons ⟨_, _, here⟩ ih

end Threaded

theorem isSome_of_rel {relation : α → β → Prop} {value : Option α} {result : Option β}
    (related : Option.Rel relation value result) : value.isSome = result.isSome := by
  cases related <;> rfl

theorem exists_of_rel_some {relation : α → β → Prop} {value : Option α} {result : β}
    (related : Option.Rel relation value (some result)) :
    ∃ partner, value = some partner ∧ relation partner result := by
  cases related with
  | some here => exact ⟨_, rfl, here⟩

theorem rel_imp {relation weaker : α → β → Prop} {value : Option α} {result : Option β}
    (implies : ∀ a b, relation a b → weaker a b) (related : Option.Rel relation value result) :
    Option.Rel weaker value result := by
  cases related with
  | none => exact .none
  | some here => exact .some (implies _ _ here)

theorem rel_trans {early : α → β → Prop} {late : β → γ → Prop} {whole : α → γ → Prop} {first : Option α}
    {second : Option β} {third : Option γ} (compose : ∀ a b c, early a b → late b c → whole a c)
    (start : Option.Rel early first second) (rest : Option.Rel late second third) : Option.Rel whole first third := by
  cases start with
  | none =>
    cases rest
    exact .none
  | some here =>
    cases rest with
    | some there => exact .some (compose _ _ _ here there)

theorem mapError_eq_ok_iff {first : Except ε α} {convert : ε → δ} :
    first.mapError convert = .ok result ↔ first = .ok result := by
  cases first <;> simp [Except.mapError]

theorem resolve_eq_ok_iff {outcome : Except ResolveError α} :
    (liftM outcome : Except CompileError α) = .ok result ↔ outcome = .ok result := mapError_eq_ok_iff

theorem write_eq_ok_iff {outcome : Except WriteError α} :
    (liftM outcome : Except CompileError α) = .ok result ↔ outcome = .ok result := mapError_eq_ok_iff

theorem map_eq_ok_iff {first : Except ε α} {convert : α → β} :
    first.map convert = .ok result ↔ ∃ value, first = .ok value ∧ convert value = result := by
  cases first <;> simp [Except.map]

theorem map_eq_error_iff {first : Except ε α} {convert : α → β} :
    first.map convert = .error error ↔ first = .error error := by
  cases first <;> simp [Except.map]

/-- Steps one after the other fail with the error of the first that fails. -/
theorem mapM_eq_error_iff {step : α → Except ε β} {values : List α} : values.mapM step = .error error ↔
    ∃ earlier value later, values = earlier ++ value :: later ∧ (∀ other ∈ earlier, ∃ result, step other = .ok result) ∧
      step value = .error error := by
  induction values with
  | nil => simp [pure, Except.pure]
  | cons first values ih =>
    rw [List.mapM_cons]
    cases here : step first with
    | error reported =>
      constructor
      · rintro ⟨⟩
        exact ⟨[], first, values, rfl, by simp, here⟩
      · rintro ⟨earlier, value, later, parts, before, failed⟩
        cases earlier with
        | nil =>
          cases parts
          cases here.symm.trans failed
          rfl
        | cons other earlier =>
          cases parts
          obtain ⟨result, found⟩ := before first List.mem_cons_self
          cases here.symm.trans found
    | ok result =>
      have rest : (do let results ← values.mapM step; pure (result :: results)) = .error error ↔
          values.mapM step = .error error := by
        simp [bind_eq_error_iff, pure, Except.pure]
      refine rest.trans (ih.trans ?_)
      constructor
      · rintro ⟨earlier, value, later, rfl, before, failed⟩
        exact ⟨first :: earlier, value, later, rfl, by simpa [here] using before, failed⟩
      · rintro ⟨earlier, value, later, parts, before, failed⟩
        cases earlier with
        | nil =>
          cases parts
          cases here.symm.trans failed
        | cons other earlier =>
          cases parts
          exact ⟨earlier, value, later, rfl, fun next member => before next (List.mem_cons_of_mem _ member), failed⟩

theorem exists_of_mapM_error {step : α → Except ε β} {values : List α} (failed : values.mapM step = .error error) :
    ∃ value ∈ values, step value = .error error := by
  obtain ⟨earlier, value, later, rfl, _, here⟩ := mapM_eq_error_iff.mp failed
  exact ⟨value, List.mem_append_right _ List.mem_cons_self, here⟩

/-- Steps that can fail in one way only, one of which fails. -/
theorem mapM_eq_error {step : α → Except ε β} {values : List α}
    (alike : ∀ value ∈ values, ∀ other, step value = .error other → other = error) (member : value ∈ values)
    (failed : step value = .error error) : values.mapM step = .error error := by
  cases outcome : values.mapM step with
  | error other =>
    obtain ⟨early, listed, first⟩ := exists_of_mapM_error outcome
    rw [alike early listed other first]
  | ok results =>
    obtain ⟨index, found⟩ := List.mem_iff_getElem?.mp member
    obtain ⟨result, _, success⟩ := exists_getElem?_of_forall₂ (mapM_eq_ok_iff.mp outcome) found
    cases failed.symm.trans success

/-- Steps that are made of parts fail where the first of their parts does. -/
theorem mapM_eq_error_iff_flatMap {step : α → Except ε β} {parts : α → List γ} {part : γ → Except ε δ}
    {values : List α}
    (each : ∀ value ∈ values, ∀ error, step value = .error error ↔ (parts value).mapM part = .error error) :
    values.mapM step = .error error ↔ (values.flatMap parts).mapM part = .error error := by
  induction values with
  | nil => simp [pure, Except.pure]
  | cons value values ih =>
    have here := each value List.mem_cons_self
    have rest := ih fun other member => each other (List.mem_cons_of_mem _ member)
    rw [List.flatMap_cons, List.mapM_cons, List.mapM_append]
    cases first : step value with
    | error reported => simp only [(here reported).mp first, bind, Except.bind, Except.error.injEq]
    | ok result =>
      cases whole : (parts value).mapM part with
      | error reported => cases first.symm.trans ((here reported).mpr whole)
      | ok results =>
        have left : (do let others ← values.mapM step; pure (result :: others)) = .error error ↔
            values.mapM step = .error error := by
          simp [bind_eq_error_iff, pure, Except.pure]
        have right : (do let others ← (values.flatMap parts).mapM part; pure (results ++ others)) = .error error ↔
            (values.flatMap parts).mapM part = .error error := by
          simp [bind_eq_error_iff, pure, Except.pure]
        exact left.trans (rest.trans right.symm)

end Kashida
