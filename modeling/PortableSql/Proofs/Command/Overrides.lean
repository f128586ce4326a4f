import Mathlib.Data.List.Nodup
import PortableSql.Command.Registry

/-!
# Overrides and defaults

What a registry of templates gives for a kind after any registrations, in any order: the last override, or else
the last default, the shared ones counting as registered before all others. Registrations of other kinds make no
difference, and no default comes out from behind an override. Main statement: `Registry.overrides_win`.
-/
namespace PortableSql.Command

/-- A call that gives a kind a text. -/
inductive Registration
  | override (kind : CommandKind) (text : String)
  | default (kind : CommandKind) (text : String)
  deriving DecidableEq

namespace Registration

def kind : Registration → CommandKind
  | .override kind _ | .default kind _ => kind

/-- The kind and the text, if the call is an override. -/
def override? : Registration → Option (CommandKind × String)
  | .override kind text => some (kind, text)
  | .default _ _ => none

/-- The kind and the text, if the call is a default. -/
def default? : Registration → Option (CommandKind × String)
  | .override _ _ => none
  | .default kind text => some (kind, text)

theorem override?_eq_some_iff {call : Registration} {kind : CommandKind} {text : String} :
    call.override? = some (kind, text) ↔ call = .override kind text := by
  cases call <;> simp [override?]

theorem kind_of_override? {call : Registration} {entry : CommandKind × String}
    (found : call.override? = some entry) : entry.1 = call.kind := by
  cases call with
  | override => cases found; rfl
  | default => cases found

theorem kind_of_default? {call : Registration} {entry : CommandKind × String}
    (found : call.default? = some entry) : entry.1 = call.kind := by
  cases call with
  | override => cases found
  | default => cases found; rfl

end Registration

/-! ## The last text of a kind -/

/-- The text of the last entry that has the kind. -/
def lastText (entries : List (CommandKind × String)) (kind : CommandKind) : Option String :=
  (entries.findRev? fun entry => entry.1 = kind).map (·.2)

/-- The text that registrations leave for a kind: that of the last override, or else of the last default, which
may be a shared one. -/
def chosenText (calls : List Registration) (kind : CommandKind) : Option String :=
  (lastText (calls.filterMap Registration.override?) kind).or
    (lastText (defaultTemplates ++ calls.filterMap Registration.default?) kind)

section
variable {entries front back : List (CommandKind × String)} {kind : CommandKind} {text : String}

/-- What is looked up among entries of which the last stands in front is the last one. -/
theorem lookup_reverse (entries : List (CommandKind × String)) (kind : CommandKind) :
    entries.reverse.lookup kind = lastText entries kind := by
  rw [lastText, List.findRev?_eq_find?_reverse]
  induction entries.reverse with
  | nil => rfl
  | cons entry rest ih =>
    rw [List.lookup_cons, List.find?_cons, ih]
    by_cases same : entry.1 = kind
    · simp [same]
    · have other : (kind == entry.1) = false := by simpa using Ne.symm same
      simp [same, other]

theorem lastText_append :
    lastText (front ++ back) kind = (lastText back kind).or (lastText front kind) := by
  rw [← lookup_reverse, List.reverse_append, List.lookup_append, lookup_reverse, lookup_reverse]

theorem mem_of_lookup (found : entries.lookup kind = some text) : (kind, text) ∈ entries := by
  obtain ⟨_, _, rfl, -⟩ := List.lookup_eq_some_iff.1 found
  simp

theorem isSome_lookup_iff : (entries.lookup kind).isSome = true ↔ ∃ text, (kind, text) ∈ entries := by
  constructor
  · intro some
    obtain ⟨text, found⟩ := Option.isSome_iff_exists.1 some
    exact ⟨text, mem_of_lookup found⟩
  · rintro ⟨text, member⟩
    by_contra missing
    rw [Option.not_isSome_iff_eq_none, List.lookup_eq_none_iff] at missing
    simpa using missing _ member

theorem lookup_eq_some_iff_mem (distinct : (entries.map (·.1)).Nodup) :
    entries.lookup kind = some text ↔ (kind, text) ∈ entries := by
  constructor
  · exact mem_of_lookup
  · intro member
    obtain ⟨front, back, rfl⟩ := List.append_of_mem member
    rw [List.map_append, List.nodup_append] at distinct
    refine List.lookup_eq_some_iff.2 ⟨front, back, rfl, fun entry before => ?_⟩
    have apart := distinct.2.2 entry.1 (List.mem_map_of_mem before) kind (by simp)
    simpa using Ne.symm apart

/-- Where each kind stands once, the first entry of a kind is the last. -/
theorem lookup_eq_lastText (distinct : (entries.map (·.1)).Nodup) (kind : CommandKind) :
    entries.lookup kind = lastText entries kind := by
  have reversed : (entries.reverse.map (·.1)).Nodup := by
    rw [List.map_reverse]
    exact List.nodup_reverse.2 distinct
  ext text
  rw [← lookup_reverse, lookup_eq_some_iff_mem distinct, lookup_eq_some_iff_mem reversed, List.mem_reverse]

theorem distinct_defaultTemplates : (defaultTemplates.map (·.1)).Nodup := by
  decide

/-- Calls for other kinds leave no text for a kind. -/
theorem lastText_filter {entry : Registration → Option (CommandKind × String)}
    (own : ∀ {call e}, entry call = some e → e.1 = call.kind) (calls : List Registration)
    (kind : CommandKind) :
    lastText ((calls.filter fun call => call.kind = kind).filterMap entry) kind =
      lastText (calls.filterMap entry) kind := by
  simp only [← lookup_reverse, ← List.filterMap_reverse, ← List.filter_reverse]
  induction calls.reverse with
  | nil => rfl
  | cons call calls ih =>
    by_cases same : call.kind = kind
    · rw [List.filter_cons_of_pos (by simpa using same), List.filterMap_cons, List.filterMap_cons]
      cases entry call with
      | none => exact ih
      | some e => rw [List.lookup_cons, List.lookup_cons, ih]
    · rw [List.filter_cons_of_neg (by simpa using same), ih, List.filterMap_cons]
      cases found : entry call with
      | none => rfl
      | some e =>
        have other : (kind == e.1) = false := by
          rw [own found]
          simpa using Ne.symm same
        rw [List.lookup_cons, other]

theorem chosenText_filter (calls : List Registration) (kind : CommandKind) :
    chosenText (calls.filter fun call => call.kind = kind) kind = chosenText calls kind := by
  rw [chosenText, chosenText, lastText_append, lastText_append,
    lastText_filter Registration.kind_of_override?, lastText_filter Registration.kind_of_default?]

end

/-! ## Registries -/

namespace Registry

/-- The registry after a call. -/
def apply (registry : Registry) : Registration → Registry
  | .override kind text => registry.register kind text
  | .default kind text => registry.registerDefault kind text

/-- The registry after calls, one after the other. -/
def applyAll (registry : Registry) (calls : List Registration) : Registry :=
  calls.foldl apply registry

/-- Overrides are added to overrides and defaults to defaults. -/
theorem applyAll_eq (registry : Registry) (calls : List Registration) :
    registry.applyAll calls =
      ⟨(calls.filterMap Registration.default?).reverse ++ registry.defaults,
        (calls.filterMap Registration.override?).reverse ++ registry.overrides, registry.identity⟩ := by
  induction calls generalizing registry with
  | nil => rfl
  | cons call calls ih =>
    rw [applyAll, List.foldl_cons, ← applyAll, ih]
    cases call with
    | override kind text =>
      simp [apply, register, List.filterMap_cons, Registration.override?, Registration.default?]
    | default kind text =>
      simp [apply, registerDefault, List.filterMap_cons, Registration.override?, Registration.default?]

variable {identity : Identity} {calls later : List Registration} {kind : CommandKind}

theorem overrides_applyAll :
    ((new identity).applyAll calls).overrides.lookup kind =
      lastText (calls.filterMap Registration.override?) kind := by
  rw [applyAll_eq]
  show List.lookup kind (_ ++ []) = _
  rw [List.append_nil, lookup_reverse]

theorem defaults_applyAll :
    ((new identity).applyAll calls).defaults.lookup kind =
      lastText (defaultTemplates ++ calls.filterMap Registration.default?) kind := by
  rw [applyAll_eq]
  show List.lookup kind (_ ++ defaultTemplates) = _
  rw [List.lookup_append, lookup_reverse, lookup_eq_lastText distinct_defaultTemplates, lastText_append]

theorem raw_applyAll :
    ((new identity).applyAll calls).raw kind =
      match chosenText calls kind with
      | some text => .ok text
      | none => .error ⟨kind⟩ := by
  rw [raw, overrides_applyAll, defaults_applyAll]
  rfl

theorem identity_applyAll : ((new identity).applyAll calls).identity = identity := by
  rw [applyAll_eq]
  rfl

theorem isOverridden_applyAll_iff :
    ((new identity).applyAll calls).isOverridden kind = true ↔ ∃ text, .override kind text ∈ calls := by
  rw [isOverridden, applyAll_eq]
  show (List.lookup kind (_ ++ [])).isSome = true ↔ _
  simp only [List.append_nil, isSome_lookup_iff, List.mem_reverse, List.mem_filterMap,
    Registration.override?_eq_some_iff, exists_eq_right]

/-- Behind an override no default counts. -/
theorem chosenText_append_defaults {text : String} (overridden : .override kind text ∈ calls)
    (defaults : ∀ call ∈ later, call.override? = none) :
    chosenText (calls ++ later) kind = chosenText calls kind := by
  have none : later.filterMap Registration.override? = [] := List.filterMap_eq_nil_iff.2 defaults
  have some : (lastText (calls.filterMap Registration.override?) kind).isSome = true := by
    rw [← lookup_reverse, isSome_lookup_iff]
    exact ⟨text, by simpa [Registration.override?_eq_some_iff] using overridden⟩
  obtain ⟨last, found⟩ := Option.isSome_iff_exists.1 some
  rw [chosenText, chosenText, List.filterMap_append, none, List.append_nil, found, Option.some_or,
    Option.some_or]

theorem mem_effective_iff {registry : Registry} {text : String} :
    (kind, text) ∈ registry.effective ↔ registry.template kind = .ok text := by
  rw [effective, List.mem_filterMap]
  constructor
  · rintro ⟨other, -, found⟩
    split at found
    · rename_i stored
      cases found
      exact stored
    · cases found
  · intro stored
    exact ⟨kind, CommandKind.mem_all kind, by rw [stored]⟩

/-- The kinds that have a template are listed in the order in which kinds are declared. -/
theorem effective_ascending (registry : Registry) :
    (registry.effective.map fun row => row.1.ctorIdx).Pairwise (· < ·) := by
  have declared : CommandKind.all.Pairwise fun first second => first.ctorIdx < second.ctorIdx := by
    decide
  rw [List.pairwise_map, effective, List.pairwise_filterMap]
  refine declared.imp fun {first second} before row found rowBehind foundBehind => ?_
  split at found
  · split at foundBehind
    · cases found
      cases foundBehind
      exact before
    · cases foundBehind
  · cases found

/-- After any registrations, a kind has the text of its last override, or else of its last default, which may be
a shared one, with the tokens of the identity filled; a kind without any is unknown. It is overridden if an
override was ever registered, and then no later default counts. Registrations of other kinds make no difference,
and the kinds that have a template are listed with it in the order of their declaration. -/
theorem overrides_win (identity : Identity) (calls : List Registration) :
    let registry := (new identity).applyAll calls
    (∀ kind, registry.template kind =
      match chosenText calls kind with
      | some text => .ok (fill identity.get? text)
      | none => .error ⟨kind⟩) ∧
    (∀ kind tokens, registry.render kind tokens =
      match chosenText calls kind with
      | some text => .ok (fill (fun name => (identity.get? name).or (lookupToken tokens name)) text)
      | none => .error ⟨kind⟩) ∧
    (∀ kind, registry.isOverridden kind = true ↔ ∃ text, .override kind text ∈ calls) ∧
    (∀ kind later, registry.isOverridden kind = true → (∀ call ∈ later, call.override? = none) →
      ((new identity).applyAll (calls ++ later)).template kind = registry.template kind) ∧
    (∀ kind, let own := (new identity).applyAll (calls.filter fun call => call.kind = kind)
      own.template kind = registry.template kind ∧ own.isOverridden kind = registry.isOverridden kind) ∧
    (registry.effective.map fun row => row.1.ctorIdx).Pairwise (· < ·) ∧
    ∀ kind text, (kind, text) ∈ registry.effective ↔ registry.template kind = .ok text := by
  intro registry
  have templates : ∀ (calls : List Registration) (kind : CommandKind),
      ((new identity).applyAll calls).template kind =
        match chosenText calls kind with
        | some text => .ok (fill identity.get? text)
        | none => .error ⟨kind⟩ := by
    intro calls kind
    rw [template, raw_applyAll, identity_applyAll]
    cases chosenText calls kind <;> rfl
  refine ⟨templates calls, fun kind tokens => ?_, fun kind => isOverridden_applyAll_iff,
    fun kind later overridden defaults => ?_, fun kind => ⟨?_, ?_⟩, effective_ascending registry,
    fun kind text => mem_effective_iff⟩
  · rw [render, raw_applyAll, identity_applyAll]
    cases chosenText calls kind <;> rfl
  · obtain ⟨text, member⟩ := isOverridden_applyAll_iff.1 overridden
    rw [templates, templates, chosenText_append_defaults member defaults]
  · rw [templates, templates, chosenText_filter]
  · rw [Bool.eq_iff_iff, isOverridden_applyAll_iff, isOverridden_applyAll_iff]
    simp [Registration.kind]

/-- A default before and one after the override, and a kind that has only the default registered last. -/
theorem overrides_win_between_defaults :
    let calls : List Registration := [.default .select "first", .override .select "of #DATABASE#",
      .default .tableExists "in #DATABASE#", .default .select "last"]
    let registry := (new ⟨"utf8", "bin", "shop"⟩).applyAll calls
    let later : List Registration := [.default .select "later", .default .tableExists "now #DATABASE#"]
    (registry.isOverridden .select = true ∧ ∀ call ∈ later, call.override? = none) ∧
      registry.template .select = .ok "of shop" ∧
      registry.template .tableExists = .ok "in shop" ∧
      registry.template .viewExists = .error ⟨.viewExists⟩ ∧
      registry.isOverridden .tableExists = false ∧
      ((new ⟨"utf8", "bin", "shop"⟩).applyAll (calls ++ later)).template .select = .ok "of shop" := by
  intro calls registry later
  obtain ⟨templates, -, overridden, hidden, -⟩ := overrides_win ⟨"utf8", "bin", "shop"⟩ calls
  have isOverride : registry.isOverridden .select = true :=
    (overridden .select).2 ⟨"of #DATABASE#", by decide⟩
  have defaults : ∀ call ∈ later, call.override? = none := by decide
  have select : registry.template .select = .ok "of shop" := (templates .select).trans (by decide +kernel)
  have plain : registry.isOverridden .tableExists = false := by
    rw [Bool.eq_false_iff, ne_eq, overridden]
    simp [calls]
  exact ⟨⟨isOverride, defaults⟩, select, (templates .tableExists).trans (by decide +kernel),
    (templates .viewExists).trans (by decide +kernel), plain,
    (hidden .select later isOverride defaults).trans select⟩

end Registry

end PortableSql.Command
