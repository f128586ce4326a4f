import PortableSql.Command.Defaults
import PortableSql.Placeholder.Token

/-!
Command templates and how their tokens are filled. A kind has the override that was registered last,
or else the default that was registered last. Tokens of the engine's identity win over the tokens of
the caller; all are filled in one pass over the template, which never looks at the values it has put
in and keeps the tokens that it does not know.
-/
namespace PortableSql.Command

open Placeholder Text

/-- What an engine puts into its own templates. -/
structure Identity where
  charset : String
  collation : String
  database : String
  deriving DecidableEq, Repr

namespace Identity

/-- The value of an identity token. -/
def get? (identity : Identity) (token : String) : Option String :=
  match token with
  | "#CHARSET#" => some identity.charset
  | "#COLLATION#" => some identity.collation
  | "#DATABASE#" => some identity.database
  | _ => none

end Identity

/-- The known token at the beginning of a text whose delimiter has been read: its value and the text
behind it. -/
def readToken? (lookup : String → Option String) (text : List Char) :
    Option (List Char × List Char) :=
  match token? text with
  | none => none
  | some (token, rest) => (lookup (String.ofList token)).map fun value => (value.toList, rest)

theorem readToken?_length {lookup : String → Option String} {text value rest : List Char}
    (found : readToken? lookup text = some (value, rest)) : rest.length < text.length := by
  unfold readToken? at found
  split at found
  · cases found
  · rename_i token behind read
    obtain ⟨_, _, same⟩ := Option.map_eq_some_iff.1 found
    cases same
    exact token?_length read

/-- Puts the values of the known tokens into a text. A delimiter that begins no known token is kept,
so the closing delimiter of an unknown token may open the next one. -/
def fillText (lookup : String → Option String) (text : List Char) : List Char :=
  match text with
  | [] => []
  | c :: rest =>
    match _found : if c = delimiter then readToken? lookup rest else none with
    | some (value, behind) => value ++ fillText lookup behind
    | none => c :: fillText lookup rest
termination_by text.length
decreasing_by
  · split at _found
    · have := readToken?_length _found
      simp only [List.length_cons]
      omega
    · cases _found
  · simp

def fill (lookup : String → Option String) (text : String) : String :=
  String.ofList (fillText lookup text.toList)

/-- The first value that a list of pairs gives for a name. -/
def lookupToken (tokens : List (String × String)) (name : String) : Option String :=
  (tokens.find? fun token => token.1 = name).map (·.2)

/-- A command kind that has no template. -/
structure UnknownCommand where
  kind : CommandKind
  deriving DecidableEq, Repr

def UnknownCommand.message (e : UnknownCommand) : String :=
  s!"Unknown command: no template registered for '{e.kind.name}'"

/-- The templates of one engine, those registered last in front. -/
structure Registry where
  defaults : List (CommandKind × String)
  overrides : List (CommandKind × String)
  identity : Identity
  deriving DecidableEq, Repr

namespace Registry

/-- The shared defaults, with nothing overridden. -/
def new (identity : Identity) : Registry :=
  ⟨defaultTemplates, [], identity⟩

/-- Registers an override, in place of any earlier one. -/
def register (registry : Registry) (kind : CommandKind) (text : String) : Registry :=
  { registry with overrides := (kind, text) :: registry.overrides }

/-- Registers a default, in place of any earlier one. -/
def registerDefault (registry : Registry) (kind : CommandKind) (text : String) : Registry :=
  { registry with defaults := (kind, text) :: registry.defaults }

/-- Registers overrides one after the other. -/
def registerAll (registry : Registry) (templates : List (CommandKind × String)) : Registry :=
  templates.foldl (fun registry (kind, text) => registry.register kind text) registry

def isOverridden (registry : Registry) (kind : CommandKind) : Bool :=
  (registry.overrides.lookup kind).isSome

/-- The template of a kind as it was registered. -/
def raw (registry : Registry) (kind : CommandKind) : Except UnknownCommand String :=
  match (registry.overrides.lookup kind).or (registry.defaults.lookup kind) with
  | some text => .ok text
  | none => .error ⟨kind⟩

/-- The template of a kind with the identity tokens filled. -/
def template (registry : Registry) (kind : CommandKind) : Except UnknownCommand String :=
  (registry.raw kind).map (fill registry.identity.get?)

/-- The template of a kind with the identity tokens and the tokens of the caller filled. -/
def render (registry : Registry) (kind : CommandKind) (tokens : List (String × String)) :
    Except UnknownCommand String :=
  (registry.raw kind).map
    (fill fun name => (registry.identity.get? name).or (lookupToken tokens name))

/-- All kinds that have a template, each with its text. -/
def effective (registry : Registry) : List (CommandKind × String) :=
  CommandKind.all.filterMap fun kind =>
    match registry.template kind with
    | .ok text => some (kind, text)
    | .error _ => none

end Registry

end PortableSql.Command
