import PortableSql.CommandLine.Arguments
import PortableSql.Configuration.Discovery
import PortableSql.Json.Printer

/-!
The program as a function: from its arguments and its surroundings to its output and its exit status.
The status is 0 for success, 1 for an error of the task and 2 for wrong arguments.
-/
namespace PortableSql.CommandLine

open Calendar Text

/-- What the program finds around it. -/
structure Surroundings where
  /-- The values of the variables of the environment. -/
  environment : String → Option String
  files : Configuration.Files
  /-- The text on standard input. -/
  input : String
  now : DateTime

/-- The folder of the user's configuration files. -/
def userFolder (environment : String → Option String) : Option String :=
  let absolute (path : String) : Bool := path.toList.head? == some '/'
  ((environment "XDG_CONFIG_HOME").filter absolute).or
    ((environment "HOME").map fun home => home ++ "/.config")

/-- The files that the program may look at. -/
def neededFiles (environment : String → Option String) (args : List String) : List String :=
  match readArguments environment args with
  | .error _ => []
  | .ok invocation =>
    match invocation.configuration with
    | some path => [path]
    | none => Configuration.searchPaths (userFolder environment)

/-- Whether the program looks at standard input. -/
def needsInput (environment : String → Option String) (args : List String) : Bool :=
  match readArguments environment args with
  | .error _ => false
  | .ok invocation => invocation.task = .translate none

/-- What the program leaves behind. -/
structure Outcome where
  status : Nat
  output : String
  diagnostics : String
  deriving DecidableEq, Repr

namespace Outcome

def success (output : String) : Outcome :=
  ⟨0, output, ""⟩

/-- An error of the task, behind what has been put out before it. -/
def failure (output message : String) : Outcome :=
  ⟨1, output, s!"Error: {message}\n"⟩

end Outcome

/-- Lines of text, each with its end. -/
def lines (texts : List String) : String :=
  String.join (texts.map fun text => text ++ "\n")

/-- A text with blanks behind it up to a width. -/
def padRight (width : Nat) (text : String) : String :=
  text ++ String.ofList (List.replicate (width - text.length) ' ')

def showJson (json : Json) : String :=
  lines [json.pretty]

/-- Translates a query. -/
def translate (translator : Translator) (format : Format) (verbose : Bool) (query : String) :
    Outcome :=
  let echo := if verbose then lines [s!"Input: {query}"] else ""
  let dialect := translator.dialect.name
  match (translator.translate query).1 with
  | .error e => .failure echo e.message
  | .ok sql =>
    match format with
    | .json =>
      .success (echo ++ showJson
        (.object [("dialect", .string dialect), ("query", .string query), ("sql", .string sql)]))
    | .table => .success (echo ++ lines [s!"Generated SQL ({dialect})", sql])

/-- Reads a token that is given as a name, an equals sign and a value. Blanks and number signs around
the name do not count. -/
def readToken? (raw : String) : Option (String × String) :=
  let text := raw.toList
  match text.dropWhile (· ≠ '=') with
  | [] => none
  | _ :: value =>
    let isMark (c : Char) : Bool := c == '#'
    let name := dropEndWhile isMark ((trim (text.takeWhile (· ≠ '='))).dropWhile isMark)
    some (String.ofList ('#' :: name ++ ['#']), String.ofList value)

/-- Reads tokens, or gives the first text that is none. -/
def readTokens : List String → Except String (List (String × String))
  | [] => .ok []
  | raw :: later =>
    match readToken? raw with
    | none => .error raw
    | some token => (readTokens later).map (token :: ·)

/-- Shows the template of a kind with tokens filled in. -/
def showTemplate (translator : Translator) (format : Format) (kind : CommandKind)
    (tokens : List String) : Outcome :=
  match readTokens tokens with
  | .error raw => .failure "" s!"expected NAME=VALUE, got '{raw}'"
  | .ok tokens =>
    match translator.render kind tokens with
    | .error e => .failure "" e.message
    | .ok sql =>
      let overridden := translator.commands.isOverridden kind
      match format with
      | .json =>
        .success (showJson
          (.object
            [("dialect", .string translator.dialect.name), ("kind", .string kind.name),
              ("overridden", .bool overridden), ("template", .string sql)]))
      | .table =>
        let source := if overridden then "dialect override" else "shared default"
        .success (lines [s!"{kind.name} ({source})", sql])

/-- Strings under names, in the order of the names. -/
def stringsByName (rows : List (String × String)) : Json :=
  .object (rows.foldl (fun members (name, s) => Table.insertEntry name (Json.string s) members) [])

/-- Lists the templates of all kinds. -/
def listTemplates (translator : Translator) (format : Format) : String :=
  let rows := translator.commands.effective
  match format with
  | .json => showJson (stringsByName (rows.map fun (kind, text) => (kind.name, text)))
  | .table =>
    let width := rows.foldl (fun width (kind, _) => max width kind.name.length) 0
    let row (kind : CommandKind) (text : String) : String :=
      let mark := if translator.commands.isOverridden kind then "*" else " "
      s!"{mark} {padRight width kind.name}  {text}"
    lines (rows.map (fun (kind, text) => row kind text)
      ++ ["", s!"{rows.length} template(s), * = dialect override"])

/-- Whether a text stands somewhere in another one. -/
def isInfix (wanted : List Char) : List Char → Bool
  | [] => wanted.isEmpty
  | c :: rest => wanted.isPrefixOf (c :: rest) || isInfix wanted rest

def functionJson (f : PortableFunction) : Json :=
  let described := (f.description.map fun text => ("description", Json.string text)).toList
  .object ([("name", .string f.name), ("arity", .whole f.arity), ("template", .string f.template)]
    ++ described)

/-- Lists the functions whose name contains a text; letter case does not count. -/
def listFunctions (translator : Translator) (format : Format) (filter : Option String) : String :=
  let wanted := ((filter.map foldCase).getD "").toList
  let found := translator.functions.functions.filter fun f => isInfix wanted (foldCase f.name).toList
  match format with
  | .json => showJson (.array (found.map functionJson))
  | .table =>
    if found.isEmpty then lines ["(no functions)"]
    else
      let row (name template description : String) : String :=
        s!"{padRight 22 name} {padRight 44 template} {description}"
      lines (row "Function" "Template" "Description" :: String.ofList (List.replicate 96 '─')
        :: found.map fun f => row s!"{f.name}/{f.arity}" f.template (f.description.getD ""))

/-- Lists the placeholders with their values. -/
def listPlaceholders (translator : Translator) (format : Format) : String :=
  let rows := translator.readPlaceholders.1
  match format with
  | .json => showJson (stringsByName rows)
  | .table => lines (rows.map fun (name, value) => s!"{padRight 20 name} {value}")

/-- Does what an invocation asks for. -/
def perform (surroundings : Surroundings) (invocation : Invocation) : Outcome :=
  match Configuration.discover surroundings.files (userFolder surroundings.environment)
      invocation.configuration with
  | .error e => .failure "" s!"failed to load configuration: {e.chain}"
  | .ok configuration =>
    let dialect := invocation.dialect.getD configuration.dialect
    let translator := { configuration with dialect := dialect }.translator surroundings.now
    let format := invocation.format
    match invocation.task with
    | .translate query =>
      translate translator format invocation.verbose
        (query.getD (trimmedEnd surroundings.input))
    | .template kind tokens => showTemplate translator format kind tokens
    | .templates => .success (listTemplates translator format)
    | .functions filter => .success (listFunctions translator format filter)
    | .placeholders => .success (listPlaceholders translator format)

/-- The name of the program and its version. -/
def versionLine : String := "afdialect 0.1.0"

def usageLines : List String :=
  ["Translates portable SQL for database engines",
   "",
   "Usage: afdialect [-d DIALECT] [-c CONFIG] [-f table|json] [-v] COMMAND",
   "",
   "Commands:",
   "  translate [QUERY]            Translate a portable query",
   "  template KIND [-s NAME=VALUE]...  Show the effective template for a command kind",
   "  templates                    List the templates of every command kind",
   "  functions [-n TEXT]          List portable functions",
   "  placeholders                 List placeholders and their current values"]

/-- Runs the program. -/
def run (surroundings : Surroundings) (args : List String) : Outcome :=
  match readArguments surroundings.environment args with
  | .error .version => .success (lines [versionLine])
  | .error .help => .success (lines usageLines)
  | .error .invalid => ⟨2, "", lines usageLines⟩
  | .ok invocation => perform surroundings invocation

end PortableSql.CommandLine
