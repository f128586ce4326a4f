import PortableSql.Calendar.Basic
import PortableSql.Placeholder.Token
import PortableSql.Query.Token
import PortableSql.Table

/-!
Placeholders and their values. A value is fixed text or is computed when it is first read; a computed
value is kept until the registry is reset, so that all reads in between agree. Substitution replaces
the registered tokens of a query outside its quoted spans and comments and never looks at the values
it has put in.
-/
namespace PortableSql.Placeholder

open Calendar Query Text

/-- A value that is computed at its first reading. -/
structure Computed where
  /-- The text that the computation gives when it has run `count` times before, at a time. -/
  compute : Nat → DateTime → String
  /-- How often the computation has run. -/
  count : Nat
  /-- The text of the last run, until it is forgotten. -/
  memo : Option String

inductive Value
  | fixed (text : String)
  | computed (value : Computed)

namespace Value

/-- A value that is computed by a function of the time alone. -/
def ofClock (f : DateTime → String) : Value :=
  .computed ⟨fun _ => f, 0, none⟩

/-- A value that counts its computations: a text and the number of earlier ones. -/
def counter (text : String) : Value :=
  .computed ⟨fun count _ => text ++ toString count, 0, none⟩

/-- Reads a value at a time: its text, and the value with that text kept. -/
def read (now : DateTime) : Value → String × Value
  | .fixed text => (text, .fixed text)
  | .computed value =>
    match value.memo with
    | some text => (text, .computed value)
    | none =>
      let text := value.compute value.count now
      (text, .computed { value with count := value.count + 1, memo := some text })

/-- Forgets the text of a computed value. -/
def reset : Value → Value
  | .fixed text => .fixed text
  | .computed value => .computed { value with memo := none }

end Value

/-- A name that is not a name between two delimiters. -/
structure NameError where
  name : String
  deriving DecidableEq, Repr

def NameError.message (e : NameError) : String :=
  s!"Invalid placeholder name: '{e.name}' (expected {delimiter}NAME{delimiter})"

/-- Values by name, delimiters included. -/
structure Registry where
  table : Table String Value

namespace Registry

def empty : Registry := ⟨Table.empty⟩

def insert (registry : Registry) (name : String) (value : Value) : Registry :=
  ⟨registry.table.insert name value⟩

/-- Stores a value under a name, in place of any value that it had. -/
def register (registry : Registry) (name : String) (value : Value) : Except NameError Unit × Registry :=
  if isName name then (.ok (), registry.insert name value) else (.error ⟨name⟩, registry)

theorem register_of_isName {name : String} (named : isName name = true) (registry : Registry)
    (value : Value) : registry.register name value = (.ok (), registry.insert name value) :=
  if_pos named

theorem register_of_not_isName {name : String} (refused : isName name = false) (registry : Registry)
    (value : Value) : registry.register name value = (.error ⟨name⟩, registry) :=
  if_neg (Bool.eq_false_iff.1 refused)

/-- A value that is refused leaves all others as they are. -/
theorem register_of_error {registry : Registry} {name : String} {value : Value} {e : NameError}
    (fails : (registry.register name value).1 = .error e) :
    (registry.register name value).2 = registry := by
  cases named : isName name with
  | true =>
    rw [register_of_isName named] at fails
    cases fails
  | false => rw [register_of_not_isName named]

/-- Reads the value of a name. -/
def resolve (registry : Registry) (now : DateTime) (name : String) : Option (String × Registry) :=
  (registry.table.get? name).map fun value =>
    let (text, kept) := value.read now
    (text, registry.insert name kept)

def contains (registry : Registry) (name : String) : Bool :=
  registry.table.contains name

/-- The registered names, ascending. -/
def names (registry : Registry) : List String :=
  registry.table.keys

def size (registry : Registry) : Nat :=
  registry.table.size

def isEmpty (registry : Registry) : Bool :=
  registry.size == 0

/-- Forgets the texts of all computed values. -/
def reset (registry : Registry) : Registry :=
  ⟨registry.table.mapValues Value.reset⟩

/-- Reads every name, in ascending order. -/
def resolveAll (registry : Registry) (now : DateTime) : List (String × String) × Registry :=
  registry.names.foldl
    (fun (rows, registry) name =>
      match registry.resolve now name with
      | some (text, registry) => (rows ++ [(name, text)], registry)
      | none => (rows, registry))
    ([], registry)

/-- The registered token at the beginning of a text whose delimiter has been read: its value, the
text behind it and the registry after the reading. -/
def readToken? (registry : Registry) (now : DateTime) (text : List Char) :
    Option (List Char × List Char × Registry) :=
  match token? text with
  | none => none
  | some (token, rest) =>
    (registry.resolve now (String.ofList token)).map fun (value, registry) =>
      (value.toList, rest, registry)

theorem readToken?_length {registry after : Registry} {now : DateTime}
    {text value rest : List Char} (found : registry.readToken? now text = some (value, rest, after)) :
    rest.length < text.length := by
  unfold readToken? at found
  split at found
  · cases found
  · rename_i token behind read
    obtain ⟨_, _, same⟩ := Option.map_eq_some_iff.1 found
    cases same
    exact token?_length read

/-- Replaces the registered tokens of a text. Quoted spans and comments are kept as they are, also a
span that is never closed, and so is a delimiter that begins no registered token. -/
def substituteText (registry : Registry) (now : DateTime) (text : List Char) :
    List Char × Registry :=
  match text with
  | [] => ([], registry)
  | c :: cs =>
    match _found : nextToken? c cs with
    | none => (c :: cs, registry)
    | some (token, rest) =>
      match _read : if token = .symbol delimiter then registry.readToken? now rest else none with
      | some (value, behind, registry) =>
        let (after, registry) := substituteText registry now behind
        (value ++ after, registry)
      | none =>
        let (after, registry) := substituteText registry now rest
        (token.text ++ after, registry)
termination_by text.length
decreasing_by
  · have := nextToken?_length _found
    split at _read
    · have := readToken?_length _read
      simp only [List.length_cons]
      omega
    · cases _read
  · have := nextToken?_length _found
    simp only [List.length_cons]
    omega

/-- Replaces the registered tokens of a string. -/
def substitute (registry : Registry) (now : DateTime) (text : String) : String × Registry :=
  let (after, registry) := registry.substituteText now text.toList
  (String.ofList after, registry)

end Registry

end PortableSql.Placeholder
