import PortableSql.Proofs.Placeholder.QuerySkeleton

/-!
# Histories of a registry

What a registry reads after any operations, said by the operations alone. Resets divide the time since a
computed value was registered into intervals. The computation runs once in each interval in which the
value is read, at the first reading, and all readings of the interval give the text of that run. What
reads a value is a lookup of its name, or a substitution into a text with a hole of that name.
-/
namespace PortableSql.Placeholder

open Calendar

/-- What can be done with a registry. -/
inductive Operation
  | register (name text : String)
  | registerComputed (name : String) (compute : Nat → DateTime → String)
  | resolve (name : String)
  | contains (name : String)
  | names
  | size
  | substitute (text : String)
  | reset

/-- What comes out of an operation. -/
inductive Outcome
  | done
  | rejected (e : NameError)
  | found (text : Option String)
  | truth (b : Bool)
  | names (names : List String)
  | size (n : Nat)
  | text (text : String)

/-- What comes out of a registration. -/
def Outcome.ofRegistration : Except NameError Unit → Outcome
  | .ok () => .done
  | .error e => .rejected e

/-- An operation with the time at which it takes place. -/
structure Event where
  now : DateTime
  operation : Operation

namespace Operation

/-- Whether an operation stores a value under a name. -/
def registers (operation : Operation) (name : String) : Bool :=
  match operation with
  | .register other _ | .registerComputed other _ => isName other && other == name
  | _ => false

def isReset : Operation → Bool
  | .reset => true
  | _ => false

/-- The names that an operation reads where these names are known. -/
def reads (known : String → Bool) : Operation → List String
  | .resolve name => if known name then [name] else []
  | .substitute text => holes known text.toList
  | _ => []

/-- What an operation makes of the value of a name that it does not register. -/
def change (operation : Operation) (known : String → Bool) (now : DateTime) (name : String)
    (value : Value) : Value :=
  if operation.isReset then value.reset
  else if name ∈ operation.reads known then (value.read now).2
  else value

section
variable {operation : Operation} {known : String → Bool} {now : DateTime} {name : String}

theorem change_of_read (noReset : operation.isReset = false) (read : name ∈ operation.reads known) :
    operation.change known now name = fun value => (value.read now).2 := by
  funext value
  simp only [change, noReset, Bool.false_eq_true, if_false, read, if_true]

theorem change_of_unread (noReset : operation.isReset = false)
    (unread : name ∉ operation.reads known) :
    operation.change known now name = fun value => value := by
  funext value
  simp only [change, noReset, Bool.false_eq_true, if_false, unread]

/-- No operation changes a fixed text. -/
theorem change_fixed (text : String) : operation.change known now name (.fixed text) = .fixed text := by
  unfold change
  split
  · rfl
  · split <;> rfl

theorem change_of_isReset (reset : operation.isReset = true) :
    operation.change known now name = Value.reset := by
  funext value
  rw [change, if_pos reset]

end

end Operation

namespace Registry

/-- Stores a value under a name, if it is one. -/
def tryRegister (registry : Registry) (name : String) (value : Value) : Outcome × Registry :=
  let (result, after) := registry.register name value
  (.ofRegistration result, after)

/-- Performs an operation at its time. -/
def perform (registry : Registry) (event : Event) : Outcome × Registry :=
  match event.operation with
  | .register name text => registry.tryRegister name (.fixed text)
  | .registerComputed name compute => registry.tryRegister name (.computed ⟨compute, 0, none⟩)
  | .resolve name =>
    match registry.resolve event.now name with
    | some (text, after) => (.found (some text), after)
    | none => (.found none, registry)
  | .contains name => (.truth (registry.contains name), registry)
  | .names => (.names registry.names, registry)
  | .size => (.size registry.size, registry)
  | .substitute text =>
    let (text, after) := registry.substitute event.now text
    (.text text, after)
  | .reset => (.done, registry.reset)

/-- The registry after a history, which has its last event in front. -/
def after : List Event → Registry
  | [] => .empty
  | event :: earlier => ((after earlier).perform event).2

end Registry

/-- The names that a history has registered. -/
def known (history : List Event) (name : String) : Bool :=
  history.any fun event => event.operation.registers name

/-- When a name has been read, the last time in front. -/
structure Readings where
  /-- Since the last reset. -/
  current : List DateTime
  /-- In each interval that a reset has ended, the last interval in front. -/
  earlier : List (List DateTime)

namespace Readings

/-- How many of the earlier intervals hold a reading. -/
def earlierRuns (readings : Readings) : Nat :=
  readings.earlier.countP fun interval => !interval.isEmpty

/-- How many intervals hold a reading. -/
def runs (readings : Readings) : Nat :=
  (readings.current :: readings.earlier).countP fun interval => !interval.isEmpty

/-- What a computation gives that runs once in each interval, at its first reading. -/
def text (readings : Readings) (compute : Nat → DateTime → String) (now : DateTime) : String :=
  compute readings.earlierRuns (readings.current.getLast?.getD now)

end Readings

/-- The readings of a name in the events since its registration, with the history up to there. -/
def readings (name : String) (registered : List Event) : List Event → Readings
  | [] => ⟨[], []⟩
  | event :: since =>
    let before := readings name registered since
    if event.operation.isReset then ⟨[], before.current :: before.earlier⟩
    else if name ∈ event.operation.reads (known (since ++ registered)) then
      ⟨event.now :: before.current, before.earlier⟩
    else before

/-- The value of a computed entry with these readings. -/
def Readings.value (readings : Readings) (compute : Nat → DateTime → String) : Value :=
  .computed ⟨compute, readings.runs, readings.current.getLast?.map (compute readings.earlierRuns)⟩

/-- What a history says that a name is read as at a time, by the last registration of the name. -/
inductive Shows (history : List Event) (now : DateTime) (name : String) : String → Prop
  | fixed {since before : List Event} {start : DateTime} {text : String}
      (last : history = since ++ ⟨start, .register name text⟩ :: before) (named : isName name = true)
      (kept : ∀ event ∈ since, event.operation.registers name = false) : Shows history now name text
  | computed {since before : List Event} {start : DateTime} {compute : Nat → DateTime → String}
      (last : history = since ++ ⟨start, .registerComputed name compute⟩ :: before)
      (named : isName name = true)
      (kept : ∀ event ∈ since, event.operation.registers name = false) :
      Shows history now name
        ((readings name (⟨start, .registerComputed name compute⟩ :: before) since).text compute now)

/-! ## One operation -/

namespace Registry

variable {registry : Registry} {event : Event} {name : String}

theorem get?_readAll (registry : Registry) (now : DateTime) (names : List String) (name : String) :
    (registry.readAll now names).table.get? name = if name ∈ names then
      (registry.table.get? name).map fun value => (value.read now).2 else registry.table.get? name := by
  induction names generalizing registry with
  | nil => rfl
  | cons first later ih =>
    unfold readAll
    cases resolves : registry.resolve now first with
    | none =>
      have missing : registry.table.get? first = none := by
        simpa [resolve] using resolves
      dsimp only
      rw [ih]
      by_cases same : name = first
      · simp [same, missing]
      · simp [same]
    | some next =>
      obtain ⟨text, after⟩ := next
      dsimp only
      rw [ih, get?_of_resolve resolves]
      by_cases same : name = first
      · simp [same, Function.comp_def, Value.read_read]
      · simp [same]

theorem get?_tryRegister (registry : Registry) (name other : String) (value : Value) :
    (registry.tryRegister name value).2.table.get? other
      = if (isName name && name == other) = true then some value else registry.table.get? other := by
  show (registry.register name value).2.table.get? other = _
  cases named : isName name with
  | true =>
    rw [register_of_isName named]
    by_cases same : name = other
    · subst same
      simp [insert]
    · simp [insert, same, Table.get?_insert_of_ne _ (Ne.symm same)]
  | false => simp [register_of_not_isName named]

/-- An operation that registers nothing and is no reset does nothing but read names. -/
theorem perform_eq_readAll (named : ∀ name, registry.contains name = true → isName name = true)
    (noReset : event.operation.isReset = false)
    (kept : ∀ name, event.operation.registers name = false) :
    (registry.perform event).2
      = registry.readAll event.now (event.operation.reads registry.contains) := by
  obtain ⟨now, operation⟩ := event
  cases operation with
  | register name text =>
    have unnamed : isName name = false := by simpa [Operation.registers] using kept name
    simp [perform, tryRegister, register_of_not_isName unnamed, Operation.reads, readAll]
  | registerComputed name compute =>
    have unnamed : isName name = false := by simpa [Operation.registers] using kept name
    simp [perform, tryRegister, register_of_not_isName unnamed, Operation.reads, readAll]
  | resolve name =>
    unfold perform Operation.reads
    dsimp only
    cases resolves : registry.resolve now name with
    | none =>
      rw [resolve_eq_none_iff.1 resolves]
      rfl
    | some next =>
      obtain ⟨text, after⟩ := next
      simp only [(known_of_resolve resolves).1, if_true, readAll, resolves]
  | substitute text => exact congrArg Prod.snd (substituteText_eq named now text.toList)
  | reset => cases noReset
  | _ => rfl

/-- The value of a name is changed by readings and by resets only, unless another is registered. -/
theorem get?_perform (named : ∀ name, registry.contains name = true → isName name = true)
    (kept : event.operation.registers name = false) :
    (registry.perform event).2.table.get? name
      = (registry.table.get? name).map (event.operation.change registry.contains event.now name) := by
  obtain ⟨now, operation⟩ := event
  cases operation with
  | register other text =>
    refine (get?_tryRegister registry other name _).trans ?_
    rw [show (isName other && other == name) = false from kept, if_neg Bool.false_ne_true,
      Operation.change_of_unread rfl List.not_mem_nil, Option.map_id']
  | registerComputed other compute =>
    refine (get?_tryRegister registry other name _).trans ?_
    rw [show (isName other && other == name) = false from kept, if_neg Bool.false_ne_true,
      Operation.change_of_unread rfl List.not_mem_nil, Option.map_id']
  | reset => exact Table.get?_mapValues _ _ _
  | resolve | contains | names | size | substitute =>
    rw [perform_eq_readAll named rfl fun _ => rfl, get?_readAll]
    split
    · rename_i read
      rw [Operation.change_of_read rfl read]
    · rename_i unread
      rw [Operation.change_of_unread rfl unread, Option.map_id']

theorem contains_perform (named : ∀ name, registry.contains name = true → isName name = true)
    (event : Event) (name : String) : (registry.perform event).2.contains name
      = (event.operation.registers name || registry.contains name) := by
  cases kept : event.operation.registers name with
  | false =>
    rw [contains, Table.contains, get?_perform named kept, Option.isSome_map]
    rfl
  | true =>
    obtain ⟨now, operation⟩ := event
    cases operation with
    | register other text | registerComputed other compute =>
      refine (congrArg Option.isSome (get?_tryRegister registry other name _)).trans ?_
      rw [show (isName other && other == name) = true from kept, if_pos rfl]
      rfl
    | _ => cases kept

end Registry

/-! ## All operations -/

theorem isName_of_registers {operation : Operation} {name : String}
    (registers : operation.registers name = true) : isName name = true := by
  cases operation with
  | register other text | registerComputed other compute =>
    obtain ⟨named, same⟩ := Bool.and_eq_true_iff.1 registers
    exact eq_of_beq same ▸ named
  | _ => cases registers

namespace Registry

/-- A registry knows the names that have been registered, and each of them is one. -/
theorem contains_after (history : List Event) :
    (after history).contains = known history ∧
      ∀ name, (after history).contains name = true → isName name = true := by
  induction history with
  | nil => exact ⟨rfl, nofun⟩
  | cons event earlier ih =>
    obtain ⟨same, named⟩ := ih
    refine ⟨?_, fun name isKnown => ?_⟩
    · funext name
      exact (contains_perform named event name).trans (by rw [same]; rfl)
    · rw [after, contains_perform named, Bool.or_eq_true] at isKnown
      rcases isKnown with registers | isKnown
      · exact isName_of_registers registers
      · exact named name isKnown

/-- What the operations since a registration have made of its value. -/
theorem get?_after_cons {event : Event} {name : String} (kept : event.operation.registers name = false)
    (earlier : List Event) : (after (event :: earlier)).table.get? name
      = ((after earlier).table.get? name).map
        (event.operation.change (known earlier) event.now name) := by
  obtain ⟨same, named⟩ := contains_after earlier
  rw [after, get?_perform named kept, same]

/-- A fixed text stays until its name is registered again. -/
theorem get?_after_fixed {name text : String} {start : DateTime} {since before : List Event}
    (named : isName name = true)
    (kept : ∀ event ∈ since, event.operation.registers name = false) :
    (after (since ++ ⟨start, .register name text⟩ :: before)).table.get? name
      = some (.fixed text) := by
  induction since with
  | nil =>
    refine (get?_tryRegister _ name name _).trans (if_pos ?_)
    simp [named]
  | cons event since ih =>
    obtain ⟨first, later⟩ := List.forall_mem_cons.1 kept
    rw [List.cons_append, get?_after_cons first, ih later, Option.map_some, Operation.change_fixed]

/-- A value with readings, read once more. -/
theorem read_readingsValue (readings : Readings) (compute : Nat → DateTime → String)
    (now : DateTime) : (readings.value compute).read now = (readings.text compute now,
      Readings.value ⟨now :: readings.current, readings.earlier⟩ compute) := by
  obtain ⟨current, earlier⟩ := readings
  cases current with
  | nil => simp [Readings.value, Readings.text, Readings.runs, Readings.earlierRuns, Value.read]
  | cons last current =>
    have found := List.getLast?_eq_some_getLast (List.cons_ne_nil last current)
    simp [Readings.value, Readings.text, Readings.runs, Readings.earlierRuns, Value.read, found]

/-- A computed value has run once in each interval that holds a reading. -/
theorem get?_after_computed {name : String} {compute : Nat → DateTime → String} {start : DateTime}
    {since before : List Event} (named : isName name = true)
    (kept : ∀ event ∈ since, event.operation.registers name = false) :
    (after (since ++ ⟨start, .registerComputed name compute⟩ :: before)).table.get? name
      = some ((readings name (⟨start, .registerComputed name compute⟩ :: before) since).value
        compute) := by
  induction since with
  | nil =>
    refine (get?_tryRegister _ name name _).trans (if_pos ?_)
    simp [named]
  | cons event since ih =>
    obtain ⟨first, later⟩ := List.forall_mem_cons.1 kept
    rw [List.cons_append, get?_after_cons first, ih later, Option.map_some, readings]
    -- a step depends on the readings before it, and not on how they came about
    generalize readings name _ since = readings
    cases reset : event.operation.isReset with
    | true =>
      rw [Operation.change_of_isReset reset, if_pos rfl]
      rfl
    | false =>
      rw [if_neg Bool.false_ne_true]
      split
      · rename_i read
        rw [Operation.change_of_read reset read]
        dsimp only
        rw [read_readingsValue]
      · rename_i unread
        rw [Operation.change_of_unread reset unread]

end Registry

/-! ## What is read -/

open Registry

/-- A name that is known has been registered, and not again since. -/
theorem exists_last_registration {history : List Event} {name : String}
    (isKnown : known history name = true) :
    ∃ since event before, history = since ++ event :: before ∧
      event.operation.registers name = true ∧
      ∀ event ∈ since, event.operation.registers name = false := by
  obtain ⟨event, member, registers⟩ := List.any_eq_true.1 isKnown
  cases found : history.find? fun event => event.operation.registers name with
  | none => exact absurd registers (List.find?_eq_none.1 found event member)
  | some event =>
    obtain ⟨registers, since, before, split, kept⟩ := List.find?_eq_some_iff_append.1 found
    refine ⟨since, event, before, split, registers, fun event member => ?_⟩
    simpa using kept event member

theorem exists_shows {history : List Event} {name : String} (isKnown : known history name = true)
    (now : DateTime) : ∃ text, Shows history now name text := by
  obtain ⟨since, ⟨start, operation⟩, before, split, registers, kept⟩ :=
    exists_last_registration isKnown
  have named := isName_of_registers registers
  cases operation with
  | register other text =>
    obtain rfl := eq_of_beq (Bool.and_eq_true_iff.1 registers).2
    exact ⟨_, .fixed split named kept⟩
  | registerComputed other compute =>
    obtain rfl := eq_of_beq (Bool.and_eq_true_iff.1 registers).2
    exact ⟨_, .computed split named kept⟩
  | _ => cases registers

/-- A counter is read as its text and the number of earlier intervals in which it was read. -/
theorem Shows.counter {since before : List Event} {start : DateTime} {name : String}
    (named : isName name = true) (kept : ∀ event ∈ since, event.operation.registers name = false)
    (text : String) (now : DateTime) :
    Shows (since ++ ⟨start, .registerComputed name fun count _ => text ++ toString count⟩ :: before) now name
      (text ++ toString (readings name
        (⟨start, .registerComputed name fun count _ => text ++ toString count⟩ :: before) since).earlierRuns) :=
  .computed rfl named kept

/-- What a history says that a name is read as is what the registry reads. -/
theorem Shows.get? {history : List Event} {now : DateTime} {name text : String}
    (shown : Shows history now name text) :
    ∃ value, (after history).table.get? name = some value ∧ (value.read now).1 = text := by
  cases shown with
  | fixed last named kept =>
    rw [last]
    exact ⟨_, get?_after_fixed named kept, rfl⟩
  | computed last named kept =>
    rw [last]
    refine ⟨_, get?_after_computed named kept, ?_⟩
    rw [read_readingsValue]

theorem quiet_of_reads {operation : Operation} {names : String → Bool} {name : String}
    (read : name ∈ operation.reads names) (other : String) :
    operation.isReset = false ∧ operation.registers other = false := by
  cases operation with
  | resolve | substitute => exact ⟨rfl, rfl⟩
  | _ => cases read

/-- The first reading of an interval stays the first one as long as the interval lasts. -/
theorem readings_append {name : String} {registered since before : List Event}
    (noReset : ∀ event ∈ since, event.operation.isReset = false) {first : DateTime}
    (read : (readings name registered before).current.getLast? = some first) :
    (readings name registered (since ++ before)).earlier = (readings name registered before).earlier ∧
      (readings name registered (since ++ before)).current.getLast? = some first := by
  induction since with
  | nil => exact ⟨rfl, read⟩
  | cons event since ih =>
    obtain ⟨here, later⟩ := List.forall_mem_cons.1 noReset
    obtain ⟨earlier, current⟩ := ih later
    rw [List.cons_append, readings, here, if_neg Bool.false_ne_true]
    split
    · refine ⟨earlier, ?_⟩
      rw [List.getLast?_cons, current]
      rfl
    · exact ⟨earlier, current⟩

/-- What is read of a computed value is read again as long as the interval lasts. -/
theorem text_readings_append {name : String} {registered since between : List Event} {event : Event}
    (read : name ∈ event.operation.reads (known (between ++ registered)))
    (noReset : ∀ event ∈ since, event.operation.isReset = false)
    (compute : Nat → DateTime → String) (later : DateTime) :
    (readings name registered (since ++ event :: between)).text compute later
      = (readings name registered between).text compute event.now := by
  have step : readings name registered (event :: between)
      = ⟨event.now :: (readings name registered between).current,
        (readings name registered between).earlier⟩ := by
    rw [readings, (quiet_of_reads read name).1, if_neg Bool.false_ne_true, if_pos read]
  have first : (readings name registered (event :: between)).current.getLast?
      = some ((readings name registered between).current.getLast?.getD event.now) := by
    rw [step, List.getLast?_cons]
  obtain ⟨earlier, current⟩ := readings_append noReset first
  rw [Readings.text, current, Readings.earlierRuns, earlier, step]
  rfl

/-- All readings of an interval give the text of the first one. -/
theorem Shows.again {history : List Event} {event : Event} {name text : String}
    (shown : Shows history event.now name text)
    (read : name ∈ event.operation.reads (known history)) {since : List Event}
    (quiet : ∀ event ∈ since, event.operation.isReset = false ∧ event.operation.registers name = false)
    (later : DateTime) : Shows (since ++ event :: history) later name text := by
  obtain ⟨noReset, noEntry⟩ := quiet_of_reads read name
  have kept {between : List Event} (kept : ∀ e ∈ between, e.operation.registers name = false) :
      ∀ e ∈ since ++ event :: between, e.operation.registers name = false := by
    intro e member
    rcases List.mem_append.1 member with among | among
    · exact (quiet e among).2
    · rcases List.mem_cons.1 among with rfl | among
      · exact noEntry
      · exact kept e among
  cases shown with
  | fixed last named unregistered =>
    subst last
    rw [← List.cons_append, ← List.append_assoc]
    exact .fixed rfl named (kept unregistered)
  | @computed between before start compute last named unregistered =>
    subst last
    rw [← List.cons_append, ← List.append_assoc,
      ← text_readings_append read (fun e member => (quiet e member).1) compute later]
    exact .computed rfl named (kept unregistered)

theorem perform_resolve {history : List Event} {now : DateTime} {name text : String}
    (shown : Shows history now name text) :
    ((after history).perform ⟨now, .resolve name⟩).1 = .found (some text) := by
  obtain ⟨value, found, same⟩ := shown.get?
  have resolves : (after history).resolve now name
      = some (text, (after history).insert name (value.read now).2) :=
    resolve_eq_some_iff.2 ⟨value, found, same, rfl⟩
  simp only [perform, resolves]

theorem shows_textAt {history : List Event} {name : String} (isKnown : known history name = true)
    (now : DateTime) : Shows history now name ((after history).textAt now name) := by
  obtain ⟨text, shown⟩ := exists_shows isKnown now
  obtain ⟨value, found, same⟩ := shown.get?
  have read : (after history).textAt now name = text := by
    rw [textAt, found]
    exact same
  rwa [read]

/-- The holes of a text for the names that a history has registered. -/
theorem holes_known {history : List Event} {text : List Char} {pieces : List Piece}
    (skeleton : Skeleton Shielded (known history) text pieces) :
    holes (known history) text = pieces.filterMap Piece.hole? := by
  obtain ⟨same, named⟩ := contains_after history
  have names : (fun name => isName name && known history name) = known history := by
    funext name
    cases isKnown : known history name with
    | true => rw [named name (by rw [same, isKnown]), Bool.and_self]
    | false => rw [Bool.and_false]
  rw [← holes_eq skeleton, names]

/-- What is read of the values of a registry after a history, and when they are computed. -/
structure Memoized (history : List Event) : Prop where
  /-- A lookup gives what the history says, and nothing where it says nothing. -/
  resolve (now : DateTime) (name : String) :
    (∀ text, Shows history now name text →
      ((after history).perform ⟨now, .resolve name⟩).1 = .found (some text)) ∧
    (known history name = false → ((after history).perform ⟨now, .resolve name⟩).1 = .found none)
  /-- A substitution puts what the history says into the holes of the text, and keeps the rest of it. -/
  substitute (now : DateTime) (text : String) : ∃ value : String → String,
    (∀ name, known history name = true → Shows history now name (value name)) ∧
    ((after history).perform ⟨now, .substitute text⟩).1
      = .text (String.ofList (filled (known history) value text.toList))
  /-- The names that a substitution reads are those of the holes of the text, which stand outside of quoted
  spans and of comments. -/
  holes (text : String) : ∃ pieces, Skeleton Shielded (known history) text.toList pieces ∧
    (Operation.substitute text).reads (known history) = pieces.filterMap Piece.hole?
  /-- All readings give the same text until the next reset or registration of the name. -/
  again (event : Event) (name text : String) (since : List Event) (later : DateTime) :
    Shows history event.now name text → name ∈ event.operation.reads (known history) →
    (∀ e ∈ since, e.operation.isReset = false ∧ e.operation.registers name = false) →
    Shows (since ++ event :: history) later name text
  /-- A computation has run once in each interval in which its value was read, and never else. -/
  runs (since before : List Event) (start : DateTime) (name : String)
    (compute : Nat → DateTime → String) :
    history = since ++ ⟨start, .registerComputed name compute⟩ :: before → isName name = true →
    (∀ event ∈ since, event.operation.registers name = false) →
    ∃ memo, (after history).table.get? name = some (.computed ⟨compute,
      (readings name (⟨start, .registerComputed name compute⟩ :: before) since).runs, memo⟩)
  /-- A counter reads as its text and the number of earlier intervals in which it was read. -/
  counts (since before : List Event) (start now : DateTime) (name text : String) :
    history = since ++ ⟨start, .registerComputed name fun count _ => text ++ toString count⟩ :: before →
    isName name = true → (∀ event ∈ since, event.operation.registers name = false) →
    ((after history).perform ⟨now, .resolve name⟩).1 = .found (some (text ++ toString
      (readings name (⟨start, .registerComputed name fun count _ => text ++ toString count⟩ :: before)
        since).earlierRuns))
  /-- A fixed text changes only if its name is registered. -/
  fixed (event : Event) (name text : String) :
    (after history).table.get? name = some (.fixed text) → event.operation.registers name = false →
    (after (event :: history)).table.get? name = some (.fixed text)
  /-- Asking for the names reads no value. -/
  quiet (now : DateTime) (name : String) :
    ((after history).perform ⟨now, .contains name⟩).2 = after history ∧
    ((after history).perform ⟨now, .names⟩).2 = after history ∧
    ((after history).perform ⟨now, .size⟩).2 = after history

/-- After any operations, a computed value is what its computation gave at the first reading since the
last reset. -/
theorem memoized (history : List Event) : Memoized history := by
  obtain ⟨same, named⟩ := contains_after history
  constructor
  · intro now name
    refine ⟨fun text => perform_resolve, fun unknown => ?_⟩
    rw [← same] at unknown
    simp only [perform, resolve_eq_none_iff.2 unknown]
  · intro now text
    refine ⟨(after history).textAt now, fun name isKnown => shows_textAt isKnown now, ?_⟩
    simp only [perform, Registry.substitute, substituteText_eq named now, same]
  · intro text
    obtain ⟨pieces, skeleton⟩ := exists_skeleton Shielded.isShielding (known history) text.toList
    exact ⟨pieces, skeleton, holes_known skeleton⟩
  · exact fun event name text since later shown read quiet => shown.again read quiet later
  · intro since before start name compute last isName kept
    rw [last]
    exact ⟨_, get?_after_computed isName kept⟩
  · intro since before start now name text last isName kept
    rw [last]
    exact perform_resolve (.counter isName kept text now)
  · intro event name text found kept
    rw [get?_after_cons kept, found, Option.map_some, Operation.change_fixed]
  · exact fun now name => ⟨rfl, rfl, rfl⟩

/-- A counter is read before a reset and after another one. In between, its name stands in quotes and in a
comment only, so the interval there does not count. A new registration begins to count again, and a fixed text
in its place outlasts a reset. -/
theorem memoized_of_quoted_and_commented :
    let now : DateTime := ⟨⟨2000, 1, 1, by decide⟩, .midnight⟩
    let counter : Event := ⟨now, .registerComputed "#N#" fun count _ => "n" ++ toString count⟩
    let fixed : Event := ⟨now, .register "#N#" "x"⟩
    let reset : Event := ⟨now, .reset⟩
    let bare : Event := ⟨now, .substitute "#N#'#N#' -- #N#"⟩
    let shielded : Event := ⟨now, .substitute "'#N#' -- #N#"⟩
    let earlier : List Event := [reset, shielded, reset, bare, counter]
    (∃ pieces, Skeleton Shielded (known earlier) "'#N#' -- #N#".toList pieces ∧
        pieces.filterMap Piece.hole? = []) ∧
      (∃ memo, (after (bare :: earlier)).table.get? "#N#" =
        some (.computed ⟨fun count _ => "n" ++ toString count, 2, memo⟩)) ∧
      ((after earlier).perform ⟨now, .resolve "#N#"⟩).1 = .found (some "n1") ∧
      ((after (shielded :: bare :: earlier)).perform ⟨now, .resolve "#N#"⟩).1 = .found (some "n1") ∧
      ((after (counter :: bare :: earlier)).perform ⟨now, .resolve "#N#"⟩).1 = .found (some "n0") ∧
      (after (reset :: fixed :: bare :: earlier)).table.get? "#N#" = some (.fixed "x") := by
  intro now counter fixed reset bare shielded earlier
  have named : isName "#N#" = true := by decide
  have kept : ∀ event ∈ [reset, shielded, reset, bare], event.operation.registers "#N#" = false := by decide
  have once : (readings "#N#" [counter] [reset, shielded, reset, bare]).earlierRuns = 1 := by decide +kernel
  have twice : (readings "#N#" [counter] [bare, reset, shielded, reset, bare]).runs = 2 := by decide +kernel
  have none : (readings "#N#" (counter :: bare :: earlier) []).earlierRuns = 0 := rfl
  have unread : shielded.operation.reads (known earlier) = [] := by decide +kernel
  have read : "#N#" ∈ bare.operation.reads (known earlier) := by decide +kernel
  obtain ⟨pieces, skeleton, holes⟩ := (memoized earlier).holes "'#N#' -- #N#"
  have runs := (memoized (bare :: earlier)).runs [bare, reset, shielded, reset, bare] [] now "#N#" _ rfl named
    (by decide)
  rw [twice] at runs
  have counted := (memoized earlier).counts [reset, shielded, reset, bare] [] now now "#N#" "n" rfl named kept
  rw [once] at counted
  have shown : Shows earlier now "#N#" _ := .counter named kept "n" now
  rw [once] at shown
  have again := (memoized earlier).again bare "#N#" _ [shielded] now shown read (by decide)
  have begun := (memoized (counter :: bare :: earlier)).counts [] (bare :: earlier) now now "#N#" "n" rfl named
    (List.forall_mem_nil _)
  rw [none] at begun
  have placed : (after (fixed :: bare :: earlier)).table.get? "#N#" = some (.fixed "x") :=
    @get?_after_fixed "#N#" "x" now [] _ named (List.forall_mem_nil _)
  exact ⟨⟨pieces, skeleton, holes.symm.trans unread⟩, runs, counted,
    ((memoized _).resolve now "#N#").1 _ again, begun, (memoized _).fixed reset "#N#" "x" placed rfl⟩

end PortableSql.Placeholder
