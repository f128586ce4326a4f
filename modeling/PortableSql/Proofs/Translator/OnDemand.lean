import PortableSql.Proofs.Translator.Sessions

/-!
# Catalogs on demand

A translator can put off building its catalogs until a request needs them, and build them anew after they
were dropped. It gives the same answers as one that builds them at once: what is built does not depend on
when it is built, and nothing else is kept while there are no catalogs. A refresh that finds none has
nothing to forget.
-/
namespace PortableSql

open Calendar

/-- What a translator holds besides its engine, its options and its clock. -/
structure Catalogs where
  functions : Catalog
  commands : Command.Registry
  placeholders : Placeholder.Registry

/-- What an engine brings along. -/
def Dialect.catalogs (dialect : Dialect) (options : Options) : Catalogs where
  functions := dialect.catalog
  commands := dialect.commands options.identity
  placeholders := dialect.placeholders

/-- A translator that builds its catalogs at the first request that needs them. -/
structure OnDemand where
  dialect : Dialect
  options : Options
  now : DateTime
  built : Option Catalogs

namespace OnDemand

def new (dialect : Dialect) (options : Options) (now : DateTime) : OnDemand :=
  ⟨dialect, options, now, none⟩

/-- The translator with these catalogs. -/
def withCatalogs (demand : OnDemand) (catalogs : Catalogs) : Translator :=
  ⟨demand.dialect, demand.options, demand.now, catalogs.functions, catalogs.commands,
    catalogs.placeholders⟩

/-- The translator with its catalogs built. -/
def force (demand : OnDemand) : Translator :=
  demand.withCatalogs (demand.built.getD (demand.dialect.catalogs demand.options))

/-- The translator with nothing in its catalogs. -/
def bare (demand : OnDemand) : Translator :=
  demand.withCatalogs ⟨.empty, ⟨[], [], demand.options.identity⟩, .empty⟩

/-- Keeps the catalogs of a translator. -/
def keep (demand : OnDemand) (translator : Translator) : OnDemand :=
  { demand with built := some ⟨translator.functions, translator.commands, translator.placeholders⟩ }

/-- Answers a request that needs the catalogs; they are there from then on. -/
def stepBuilt (demand : OnDemand) (encoders : Encoders) (request : Request) :
    Except RequestError Answer × OnDemand :=
  let (answer, translator) := demand.force.step encoders request
  (answer, demand.keep translator)

/-- Answers a request. Names are quoted and values converted without any catalogs, and the clock and the
refresh build none. -/
def step (demand : OnDemand) (encoders : Encoders) (request : Request) :
    Except RequestError Answer × OnDemand :=
  match request with
  | .quote _ | .store _ _ _ | .load _ _ | .roundTrip _ _ _ | .storedType _ =>
    ((demand.bare.step encoders request).1, demand)
  | .refresh =>
    (.ok .done, { demand with
      built := demand.built.map fun catalogs =>
        { catalogs with placeholders := catalogs.placeholders.reset } })
  | .setClock now => (.ok .done, { demand with now := now })
  | .withClock now => (.ok .done, new demand.dialect demand.options now)
  | request => demand.stepBuilt encoders request

/-- Answers requests one after the other. -/
def run (demand : OnDemand) (encoders : Encoders) : List Request → List (Except RequestError Answer)
  | [] => []
  | request :: later =>
    let (answer, demand) := demand.step encoders request
    answer :: demand.run encoders later

variable {encoders : Encoders}

/-- The placeholders that an engine brings along have nothing to forget. -/
theorem reset_placeholders (dialect : Dialect) :
    dialect.placeholders.reset = dialect.placeholders := by
  cases dialect <;> rfl

/-- The catalogs that are kept are those of the translator. -/
theorem force_keep {demand : OnDemand} {translator : Translator}
    (frame : translator.dialect = demand.dialect ∧ translator.options = demand.options ∧
      translator.now = demand.now) : (demand.keep translator).force = translator := by
  obtain ⟨dialect, options, now⟩ := frame
  cases translator
  subst dialect options now
  rfl

theorem stepBuilt_force (demand : OnDemand) {request : Request}
    (clock : ∀ now, request ≠ .setClock now ∧ request ≠ .withClock now) :
    (demand.stepBuilt encoders request).1 = (demand.force.step encoders request).1 ∧
      (demand.stepBuilt encoders request).2.force = (demand.force.step encoders request).2 :=
  ⟨rfl, force_keep (Translator.step_frame clock)⟩

/-- A request is answered as if the catalogs had been built at once, and so are the later ones. -/
theorem step_force (demand : OnDemand) (request : Request) :
    (demand.step encoders request).1 = (demand.force.step encoders request).1 ∧
      (demand.step encoders request).2.force = (demand.force.step encoders request).2 := by
  cases request with
  | quote | store | load | roundTrip | storedType => exact ⟨rfl, rfl⟩
  | setClock now => exact ⟨rfl, rfl⟩
  | withClock now => exact ⟨rfl, rfl⟩
  | refresh =>
    obtain ⟨dialect, options, now, built⟩ := demand
    cases built with
    | none =>
      refine ⟨rfl, ?_⟩
      show _ = { force ⟨dialect, options, now, none⟩ with placeholders := dialect.placeholders.reset }
      rw [reset_placeholders]
      rfl
    | some catalogs => exact ⟨rfl, rfl⟩
  | _ => exact stepBuilt_force demand fun now => ⟨nofun, nofun⟩

theorem run_eq_run_force (demand : OnDemand) (requests : List Request) :
    demand.run encoders requests = demand.force.run encoders requests := by
  induction requests generalizing demand with
  | nil => rfl
  | cons request later ih =>
    obtain ⟨answer, state⟩ := demand.step_force request
    show (demand.step encoders request).1 :: (demand.step encoders request).2.run encoders later
      = (demand.force.step encoders request).1 :: (demand.force.step encoders request).2.run encoders later
    rw [ih, answer, state]

/-- A session is answered as if the catalogs had been built before it. A request that only observes, or
that is answered with an error, can be left out of it: all other answers stay the same. Such a request
leaves all that the translator holds as it was. -/
theorem run_without_request (dialect : Dialect) (options : Options) (now : DateTime) (encoders : Encoders) :
    (∀ requests, (new dialect options now).run encoders requests =
      (Translator.new dialect options now).run encoders requests) ∧
    ∀ before request later,
      (request.isObservation = true ∨ ∃ e,
        ((new dialect options now).run encoders (before ++ request :: later))[before.length]? =
          some (.error e)) →
      (new dialect options now).run encoders (before ++ later)
        = ((new dialect options now).run encoders (before ++ request :: later)).eraseIdx before.length ∧
      (Translator.new dialect options now).after encoders (before ++ [request])
        = (Translator.new dialect options now).after encoders before := by
  have same (requests : List Request) : (new dialect options now).run encoders requests =
      (Translator.new dialect options now).run encoders requests :=
    run_eq_run_force _ requests
  refine ⟨same, fun before request later silent => ?_⟩
  have kept : (((Translator.new dialect options now).after encoders before).step encoders request).2
      = (Translator.new dialect options now).after encoders before := by
    rcases silent with observes | ⟨e, fails⟩
    · exact Translator.step_of_isObservation observes
    · rw [same, Translator.getElem?_run] at fails
      exact Translator.step_of_error (Option.some.inj fails)
  constructor
  · rw [same, same]
    exact Translator.run_eraseIdx kept
  · unfold Translator.after at kept ⊢
    rw [List.foldl_append]
    exact kept

/-- A query that is not translated reads no date, so a later one reads the date of the clock then. -/
theorem run_without_request_of_unclosed_query :
    let start : OnDemand := new .postgres (.defaults .postgres) ⟨⟨2024, 3, 15, by decide⟩, .midnight⟩
    let later : List Request :=
      [.setClock ⟨⟨2024, 3, 16, by decide⟩, .midnight⟩, .translate "#TODAY#"]
    start.run .stored later = (start.run .stored (.translate "#TODAY# (" :: later)).eraseIdx 0 := by
  intro start later
  have unclosed : Query.expandQuery start.force.functions 64 "#TODAY# (".toList
      = .error (.malformed .unclosedParenthesis 8 "(") := by
    decide +kernel
  have fails : (start.force.translate "#TODAY# (").1 = .error (.malformed .unclosedParenthesis 8 "(") :=
    Query.translate_fst_eq_error_iff.2 unclosed
  have answer : (start.run .stored (.translate "#TODAY# (" :: later))[0]?
      = some (.error (.query (.malformed .unclosedParenthesis 8 "("))) := by
    show some (start.force.step .stored (.translate "#TODAY# (")).1 = _
    simp only [Translator.step, fails]
    rfl
  exact ((run_without_request .postgres (.defaults .postgres) _ .stored).2 [] (.translate "#TODAY# (") later
    (.inr ⟨_, answer⟩)).1

end OnDemand

end PortableSql
