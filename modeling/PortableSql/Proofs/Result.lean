import Mathlib.Data.List.Forall2

/-!
# Results that may be errors

When a sequence of steps gives a result, and what each step gave then; and when two sequences of steps give results
that agree (`ResultsAgree`).
-/
namespace PortableSql

variable {ε α β : Type}

theorem bind_eq_ok_iff {result : Except ε α} {step : α → Except ε β} {b : β} :
    result.bind step = .ok b ↔ ∃ a, result = .ok a ∧ step a = .ok b := by
  cases result with
  | error e => exact ⟨nofun, nofun⟩
  | ok a =>
    constructor
    · intro done
      exact ⟨a, rfl, done⟩
    · rintro ⟨_, same, done⟩
      cases same
      exact done

theorem map_eq_ok_iff {result : Except ε α} {f : α → β} {b : β} :
    result.map f = .ok b ↔ ∃ a, result = .ok a ∧ f a = b := by
  cases result with
  | error e => exact ⟨nofun, nofun⟩
  | ok a => simp [Except.map]

theorem bind_eq_error_iff {result : Except ε α} {step : α → Except ε β} {e : ε} :
    result.bind step = .error e ↔ result = .error e ∨ ∃ a, result = .ok a ∧ step a = .error e := by
  cases result with
  | error e' => simp [Except.bind]
  | ok a => simp [Except.bind]

theorem map_eq_error_iff {result : Except ε α} {f : α → β} {e : ε} :
    result.map f = .error e ↔ result = .error e := by
  cases result with
  | error e' => simp [Except.map]
  | ok a => simp [Except.map]

theorem eq_ok_of_toOption {result : Except ε α} {a : α} (same : result.toOption = some a) :
    result = .ok a := by
  cases result with
  | error e => cases same
  | ok b => rw [Option.some.inj same]

/-- What is given under a condition only is what the result is. -/
theorem eq_ok_of_guarded {condition : Prop} [Decidable condition] {result : Except ε α} {e : ε} {a : α}
    (done : (if condition then result else .error e) = .ok a) : result = .ok a := by
  split at done
  · exact done
  · cases done

/-- A list of steps succeeds if each of them does. -/
theorem mapM_eq_ok_iff {step : α → Except ε β} {inputs : List α} {outputs : List β} :
    inputs.mapM step = .ok outputs ↔
      List.Forall₂ (fun input output => step input = .ok output) inputs outputs := by
  induction inputs generalizing outputs with
  | nil =>
    rw [List.mapM_nil, List.forall₂_nil_left_iff]
    exact ⟨fun same => (Except.ok.inj same).symm, fun same => same ▸ rfl⟩
  | cons input inputs ih =>
    rw [List.mapM_cons, List.forall₂_cons_left_iff]
    constructor
    · intro done
      obtain ⟨output, first, done⟩ := bind_eq_ok_iff.1 done
      obtain ⟨later, rest, same⟩ := bind_eq_ok_iff.1 done
      cases same
      exact ⟨output, later, first, ih.1 rest, rfl⟩
    · rintro ⟨output, later, first, rest, rfl⟩
      exact bind_eq_ok_iff.2 ⟨output, first, bind_eq_ok_iff.2 ⟨later, ih.2 rest, rfl⟩⟩

/-- A list of steps fails at the first one that does. -/
theorem mapM_eq_error_iff {step : α → Except ε β} {inputs : List α} {e : ε} :
    inputs.mapM step = .error e ↔
      ∃ front input back outputs, inputs = front ++ input :: back ∧
        front.mapM step = .ok outputs ∧ step input = .error e := by
  induction inputs with
  | nil =>
    rw [List.mapM_nil]
    exact ⟨nofun, fun ⟨_, _, _, _, same, _⟩ => by simp at same⟩
  | cons first inputs ih =>
    rw [List.mapM_cons]
    constructor
    · intro fails
      rcases bind_eq_error_iff.1 fails with fails | ⟨output, done, fails⟩
      · exact ⟨[], first, inputs, [], rfl, rfl, fails⟩
      · rcases bind_eq_error_iff.1 fails with fails | ⟨_, _, fails⟩
        · obtain ⟨front, input, back, outputs, rfl, before, fails⟩ := ih.1 fails
          refine ⟨first :: front, input, back, output :: outputs, rfl, ?_, fails⟩
          rw [List.mapM_cons, done, before]
          rfl
        · cases fails
    · rintro ⟨front, input, back, outputs, same, before, fails⟩
      cases front with
      | nil =>
        obtain ⟨rfl, rfl⟩ := List.cons.inj same
        exact bind_eq_error_iff.2 (.inl fails)
      | cons second front =>
        obtain ⟨rfl, rfl⟩ := List.cons.inj same
        rw [List.mapM_cons] at before
        obtain ⟨output, done, before⟩ := bind_eq_ok_iff.1 before
        obtain ⟨outputs, before, _⟩ := bind_eq_ok_iff.1 before
        have later := ih.2 ⟨front, input, back, outputs, rfl, before, fails⟩
        exact bind_eq_error_iff.2 (.inr ⟨output, done, bind_eq_error_iff.2 (.inl later)⟩)

/-- Steps that agree on a list have the same results, or the same error, on it. -/
theorem mapM_congr {step other : α → Except ε β} {inputs : List α}
    (same : ∀ input ∈ inputs, step input = other input) : inputs.mapM step = inputs.mapM other := by
  induction inputs with
  | nil => rfl
  | cons input inputs ih =>
    obtain ⟨first, later⟩ := List.forall_mem_cons.1 same
    rw [List.mapM_cons, List.mapM_cons, first, ih later]

/-- Where other steps agree with these as far as they succeed, so do lists of them. -/
theorem mapM_eq_ok_of_agree {step other : α → Except ε β} {inputs : List α} {outputs : List β}
    (agree : ∀ input ∈ inputs, ∀ output, other input = .ok output → step input = .ok output)
    (done : inputs.mapM other = .ok outputs) : inputs.mapM step = .ok outputs := by
  rw [mapM_eq_ok_iff] at done ⊢
  induction done with
  | nil => exact .nil
  | cons first _ ih =>
    obtain ⟨agreeFirst, agreeLater⟩ := List.forall_mem_cons.1 agree
    exact .cons (agreeFirst _ first) (ih agreeLater)

theorem exists_getElem?_of_forall₂ {γ : Type} {related : α → γ → Prop} {inputs : List α}
    {outputs : List γ} (each : List.Forall₂ related inputs outputs) {place : Nat} {input : α}
    (found : inputs[place]? = some input) :
    ∃ output, outputs[place]? = some output ∧ related input output := by
  induction each generalizing place with
  | nil => cases found
  | cons first _ ih =>
    cases place with
    | zero =>
      cases found
      exact ⟨_, rfl, first⟩
    | succ place => exact ih found

/-- Where inputs and outputs are related one by one, properties that agree on related ones hold of all
inputs exactly if they hold of all outputs. -/
theorem forall_mem_iff_of_forall₂ {related : α → β → Prop} {P : α → Prop}
    {Q : β → Prop} {inputs : List α} {outputs : List β} (each : List.Forall₂ related inputs outputs)
    (same : ∀ input ∈ inputs, ∀ output, related input output → (P input ↔ Q output)) :
    (∀ input ∈ inputs, P input) ↔ ∀ output ∈ outputs, Q output := by
  induction each with
  | nil => exact iff_of_true nofun nofun
  | cons first _ ih =>
    obtain ⟨sameFirst, sameLater⟩ := List.forall_mem_cons.1 same
    rw [List.forall_mem_cons, List.forall_mem_cons, sameFirst _ first, ih sameLater]

/-- Where a list of steps succeeds, each step does. -/
theorem exists_eq_ok_of_mem {step : α → Except ε β} {inputs : List α} {outputs : List β} {input : α}
    (done : inputs.mapM step = .ok outputs) (member : input ∈ inputs) :
    ∃ output, step input = .ok output := by
  obtain ⟨place, found⟩ := List.mem_iff_getElem?.1 member
  obtain ⟨output, _, done⟩ := exists_getElem?_of_forall₂ (mapM_eq_ok_iff.1 done) found
  exact ⟨output, done⟩

/-- Two results agree if both are given and related, or both are errors that are related. -/
inductive ResultsAgree {ε α β : Type} (errors : ε → ε → Prop) (values : α → β → Prop) :
    Except ε α → Except ε β → Prop
  | error {e e' : ε} (related : errors e e') : ResultsAgree errors values (.error e) (.error e')
  | ok {a : α} {b : β} (related : values a b) : ResultsAgree errors values (.ok a) (.ok b)

namespace ResultsAgree

variable {γ δ : Type} {errors : ε → ε → Prop} {values : α → β → Prop} {others : γ → δ → Prop}
  {result : Except ε α} {result' : Except ε β}

theorem bind {step : α → Except ε γ} {step' : β → Except ε δ} (agree : ResultsAgree errors values result result')
    (steps : ∀ a b, result = .ok a → result' = .ok b → values a b → ResultsAgree errors others (step a) (step' b)) :
    ResultsAgree errors others (result.bind step) (result'.bind step') := by
  cases agree with
  | error related => exact .error related
  | ok related => exact steps _ _ rfl rfl related

theorem map {f : α → γ} {g : β → δ} (agree : ResultsAgree errors values result result')
    (images : ∀ a b, values a b → others (f a) (g b)) :
    ResultsAgree errors others (result.map f) (result'.map g) := by
  cases agree with
  | error related => exact .error related
  | ok related => exact .ok (images _ _ related)

/-- Steps that agree on related inputs agree on lists of these. -/
theorem mapM {related : γ → δ → Prop} {step : γ → Except ε α} {step' : δ → Except ε β} {inputs : List γ}
    {inputs' : List δ} (each : List.Forall₂ related inputs inputs')
    (steps : ∀ a b, related a b → ResultsAgree errors values (step a) (step' b)) :
    ResultsAgree errors (List.Forall₂ values) (inputs.mapM step) (inputs'.mapM step') := by
  induction each with
  | nil => exact .ok .nil
  | cons first _ ih =>
    rw [List.mapM_cons, List.mapM_cons]
    exact (steps _ _ first).bind fun _ _ _ _ output => ih.bind fun _ _ _ _ outputs => .ok (.cons output outputs)

end ResultsAgree

end PortableSql
