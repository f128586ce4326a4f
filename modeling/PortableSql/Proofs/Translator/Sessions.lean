import PortableSql.Proofs.Result
import PortableSql.Translator.Session

/-!
# Sessions

What a request leaves of the translator that answers it. A request that only observes, and one that is
answered with an error, leave the translator as it was. So the other answers of a session are the same
without it (`run_eraseIdx`).
-/
namespace PortableSql

/-- The requests that change nothing and read no value of a placeholder. -/
def Request.isObservation : Request → Bool
  | .template _ | .render _ _ | .templates | .isOverridden _ | .quote _ | .functions
  | .resolveFunction _ _ | .arities _ | .store _ _ _ | .load _ _ | .roundTrip _ _ _
  | .storedType _ => true
  | _ => false

namespace Translator

variable {translator : Translator} {encoders : Encoders} {request : Request}

/-- The translator after requests. -/
def after (translator : Translator) (encoders : Encoders) (requests : List Request) : Translator :=
  requests.foldl (fun translator request => (translator.step encoders request).2) translator

theorem run_append (translator : Translator) (before later : List Request) :
    translator.run encoders (before ++ later) =
      translator.run encoders before ++ (translator.after encoders before).run encoders later := by
  induction before generalizing translator with
  | nil => rfl
  | cons request before ih => exact congrArg ((translator.step encoders request).1 :: ·) (ih _)

theorem length_run (translator : Translator) (requests : List Request) :
    (translator.run encoders requests).length = requests.length := by
  induction requests generalizing translator with
  | nil => rfl
  | cons request later ih => exact congrArg (· + 1) (ih _)

/-! ## What one request leaves -/

theorem step_of_isObservation (observes : request.isObservation = true) :
    (translator.step encoders request).2 = translator := by
  cases request with
  | template | render | templates | isOverridden | quote | functions | resolveFunction | arities
  | store | load | roundTrip | storedType => rfl
  | _ => cases observes

/-- A query that fails does so before any placeholder is read. -/
theorem translate_of_error {query : String} {e : Query.Error}
    (fails : (translator.translate query).1 = .error e) : (translator.translate query).2 = translator := by
  have kept := Query.translate_snd_of_error fails
  simp only [translate, kept]

/-- A name is checked before its value is put in. -/
theorem registerPlaceholder_of_error {name value : String} {e : Placeholder.NameError}
    (fails : (translator.registerPlaceholder name value).1 = .error e) :
    (translator.registerPlaceholder name value).2 = translator := by
  have kept := Placeholder.Registry.register_of_error fails
  simp only [registerPlaceholder, kept]

/-- A request that is answered with an error leaves everything as it was. -/
theorem step_of_error {e : RequestError} (fails : (translator.step encoders request).1 = .error e) :
    (translator.step encoders request).2 = translator := by
  cases request with
  | translate query =>
    simp only [step] at fails ⊢
    cases result : (translator.translate query).1 with
    | ok sql =>
      rw [result] at fails
      cases fails
    | error e => exact translate_of_error result
  | registerPlaceholder name value =>
    simp only [step] at fails ⊢
    cases result : (translator.registerPlaceholder name value).1 with
    | ok done =>
      rw [result] at fails
      cases fails
    | error e => exact registerPlaceholder_of_error result
  | template | render | store | load | roundTrip => rfl
  | _ => cases fails

/-- The engine, the options and the clock are the same after a request that is not about the clock. -/
theorem step_frame (clock : ∀ now, request ≠ .setClock now ∧ request ≠ .withClock now) :
    (translator.step encoders request).2.dialect = translator.dialect ∧
      (translator.step encoders request).2.options = translator.options ∧
      (translator.step encoders request).2.now = translator.now := by
  cases request with
  | resolvePlaceholder name =>
    simp only [step, resolvePlaceholder]
    cases translator.placeholders.resolve translator.now name <;> exact ⟨rfl, rfl, rfl⟩
  | setClock now => exact absurd rfl (clock now).1
  | withClock now => exact absurd rfl (clock now).2
  | _ => exact ⟨rfl, rfl, rfl⟩

/-! ## Sessions without a request -/

/-- The answers of a session without a request that left the translator as it was. -/
theorem run_eraseIdx {before later : List Request}
    (kept : ((translator.after encoders before).step encoders request).2 = translator.after encoders before) :
    translator.run encoders (before ++ later)
      = (translator.run encoders (before ++ request :: later)).eraseIdx before.length := by
  rw [run_append, run_append, ← translator.length_run before,
    List.eraseIdx_append_of_length_le (Nat.le_refl _), Nat.sub_self]
  simp only [run, kept, List.eraseIdx_cons_zero]

/-- The answer of a session at a place is the one that the request there gives. -/
theorem getElem?_run (before later : List Request) :
    (translator.run encoders (before ++ request :: later))[before.length]?
      = some ((translator.after encoders before).step encoders request).1 := by
  rw [run_append, ← translator.length_run before, List.getElem?_append_right (Nat.le_refl _),
    Nat.sub_self]
  rfl

end Translator

end PortableSql
