import PortableSql.Dialect.Basic

/-!
The arguments of the program: flags, then the name of a subcommand, then its flags and words. Flags are
long, with `--`, or short, with `-`; short ones may stand together. A value follows its flag in the same
argument, where an equals sign may stand before it, or is the next argument, which may not look like a
flag then. Arguments are read from the left, and the first one that is wrong ends the reading.
-/
namespace PortableSql.CommandLine

inductive Flag
  | dialect | configuration | format | verbose | version | help | set | name
  deriving DecidableEq, Repr

namespace Flag

def long : Flag → String
  | .dialect => "dialect"
  | .configuration => "config"
  | .format => "format"
  | .verbose => "verbose"
  | .version => "version"
  | .help => "help"
  | .set => "set"
  | .name => "name"

def short : Flag → Char
  | .dialect => 'd'
  | .configuration => 'c'
  | .format => 'f'
  | .verbose => 'v'
  | .version => 'V'
  | .help => 'h'
  | .set => 's'
  | .name => 'n'

def takesValue : Flag → Bool
  | .verbose | .version | .help => false
  | _ => true

/-- The flags before the subcommand. -/
def general : List Flag :=
  [.dialect, .configuration, .format, .verbose, .version, .help]

end Flag

inductive Subcommand
  | translate | template | templates | functions | placeholders
  deriving DecidableEq, Repr

namespace Subcommand

def all : List Subcommand :=
  [.translate, .template, .templates, .functions, .placeholders]

def name : Subcommand → String
  | .translate => "translate"
  | .template => "template"
  | .templates => "templates"
  | .functions => "functions"
  | .placeholders => "placeholders"

def ofName? (text : String) : Option Subcommand :=
  all.find? fun subcommand => subcommand.name = text

/-- Whether words may stand behind a subcommand. -/
def accepts (subcommand : Subcommand) (words : List String) : Bool :=
  match subcommand, words with
  | _, [] => true
  | .translate, [_] => true
  | .template, [kind] => (CommandKind.ofName? kind).isSome
  | _, _ => false

/-- The flags behind a subcommand. -/
def flags : Subcommand → List Flag
  | .template => [.set, .format, .verbose, .help]
  | .functions => [.name, .format, .verbose, .help]
  | _ => [.format, .verbose, .help]

end Subcommand

/-- How results are shown. -/
inductive Format
  | table | json
  deriving DecidableEq, Repr

def Format.ofName? : String → Option Format
  | "table" => some .table
  | "json" => some .json
  | _ => none

/-- Why the reading of arguments ends before the last one. -/
inductive Stop
  | version | help | invalid
  deriving DecidableEq, Repr

/-- What the arguments have given so far. -/
structure Given where
  dialect : Option Dialect
  configuration : Option String
  format : Option Format
  verbose : Bool
  tokens : List String
  name : Option String
  words : List String
  deriving DecidableEq, Repr

namespace Given

def nothing : Given :=
  ⟨none, none, none, false, [], none, []⟩

/-- Takes a flag with its value. Only tokens may be given more than once. -/
def take (given : Given) (flag : Flag) (value : String) : Except Stop Given :=
  match flag with
  | .dialect =>
    match given.dialect, Dialect.ofName? value with
    | none, some dialect => .ok { given with dialect := some dialect }
    | _, _ => .error .invalid
  | .configuration =>
    if given.configuration.isSome || value.isEmpty then .error .invalid
    else .ok { given with configuration := some value }
  | .format =>
    match given.format, Format.ofName? value with
    | none, some format => .ok { given with format := some format }
    | _, _ => .error .invalid
  | .verbose => if given.verbose then .error .invalid else .ok { given with verbose := true }
  | .version => .error .version
  | .help => .error .help
  | .set => .ok { given with tokens := given.tokens ++ [value] }
  | .name =>
    if given.name.isSome then .error .invalid else .ok { given with name := some value }

end Given

/-- Whether an argument has the form of a flag. -/
def looksLikeFlag (arg : String) : Bool :=
  arg.toList.head? == some '-' && arg.length != 1

/-- Reads a long flag behind its hyphens. A flag that waits for its value is given back. -/
def readLong (flags : List Flag) (given : Given) (text : List Char) :
    Except Stop (Given × Option Flag) :=
  let name := String.ofList (text.takeWhile (· ≠ '='))
  match flags.find? (fun flag => flag.long = name), text.dropWhile (· ≠ '=') with
  | none, _ => .error .invalid
  | some flag, '=' :: value =>
    if flag.takesValue then
      (given.take flag (String.ofList value)).map fun given => (given, none)
    else
      .error .invalid
  | some flag, _ =>
    if flag.takesValue then .ok (given, some flag)
    else (given.take flag "").map fun given => (given, none)

/-- Reads short flags behind their hyphen. A flag that waits for its value is given back. -/
def readShort (flags : List Flag) (given : Given) : List Char → Except Stop (Given × Option Flag)
  | [] => .ok (given, none)
  | c :: rest =>
    match flags.find? fun flag => flag.short = c with
    | none => .error .invalid
    | some flag =>
      if flag.takesValue then
        match rest with
        | [] => .ok (given, some flag)
        | '=' :: value => (given.take flag (String.ofList value)).map fun given => (given, none)
        | value => (given.take flag (String.ofList value)).map fun given => (given, none)
      else
        match given.take flag "" with
        | .ok given => readShort flags given rest
        | .error stop => .error stop

/-- Reads an argument that has the form of a flag. -/
def readFlag (flags : List Flag) (given : Given) (arg : String) :
    Except Stop (Given × Option Flag) :=
  match arg.toList with
  | '-' :: '-' :: text => readLong flags given text
  | text => readShort flags given (text.drop 1)

/-- Reads the arguments behind `help`, which may name what help is wanted for. -/
def readHelp : List String → Stop
  | [] => .help
  | [name] => if name = "help" ∨ (Subcommand.ofName? name).isSome then .help else .invalid
  | _ => .invalid

/-- Reads the arguments up to the subcommand, where a flag may wait for its value. -/
def readGeneral (given : Given) (waiting : Option Flag) :
    List String → Except Stop (Given × Subcommand × List String)
  | [] => .error .invalid
  | arg :: later =>
    if looksLikeFlag arg then
      if waiting.isSome || arg == "--" then .error .invalid
      else
        match readFlag Flag.general given arg with
        | .ok (given, waiting) => readGeneral given waiting later
        | .error stop => .error stop
    else
      match waiting with
      | some flag =>
        match given.take flag arg with
        | .ok given => readGeneral given none later
        | .error stop => .error stop
      | none =>
        if arg = "help" then .error (readHelp later)
        else
          match Subcommand.ofName? arg with
          | some subcommand => .ok (given, subcommand, later)
          | none => .error .invalid

/-- Reads the arguments behind the subcommand. The words before a flag have to be right already. Behind
`--` there are only words. -/
def readSpecial (subcommand : Subcommand) (given : Given) (waiting : Option Flag) :
    List String → Except Stop Given
  | [] => if waiting.isSome then .error .invalid else .ok given
  | arg :: later =>
    if looksLikeFlag arg then
      if waiting.isSome then .error .invalid
      else if arg = "--" then .ok { given with words := given.words ++ later }
      else if ¬ subcommand.accepts given.words then .error .invalid
      else
        match readFlag subcommand.flags given arg with
        | .ok (given, waiting) => readSpecial subcommand given waiting later
        | .error stop => .error stop
    else
      match waiting with
      | some flag =>
        match given.take flag arg with
        | .ok given => readSpecial subcommand given none later
        | .error stop => .error stop
      | none => readSpecial subcommand { given with words := given.words ++ [arg] } none later

/-- What the program is to do. -/
inductive Task
  | translate (query : Option String)
  | template (kind : CommandKind) (tokens : List String)
  | templates
  | functions (filter : Option String)
  | placeholders
  deriving DecidableEq, Repr

/-- The task of a subcommand with what was given behind it. -/
def taskOf? (subcommand : Subcommand) (given : Given) : Option Task :=
  match subcommand, given.words with
  | .translate, [] => some (.translate none)
  | .translate, [query] => some (.translate (some query))
  | .template, [kind] => (CommandKind.ofName? kind).map fun kind => .template kind given.tokens
  | .templates, [] => some .templates
  | .functions, [] => some (.functions given.name)
  | .placeholders, [] => some .placeholders
  | _, _ => none

structure Invocation where
  dialect : Option Dialect
  configuration : Option String
  format : Format
  verbose : Bool
  task : Task
  deriving DecidableEq, Repr

/-- Takes a flag from a variable of the environment, unless it has been given. -/
def takeVariable (given : Given) (flag : Flag) (known : Bool) (value : Option String) :
    Except Stop Given :=
  match value with
  | some value => if known then .ok given else given.take flag value
  | none => .ok given

/-- Reads the arguments of the program. The engine and the configuration may also come from the
environment; the output flags of the subcommand win over the general ones. -/
def readArguments (environment : String → Option String) (args : List String) :
    Except Stop Invocation := do
  let (general, subcommand, later) ← readGeneral .nothing none args
  let special ← readSpecial subcommand .nothing none later
  let general ← takeVariable general .dialect general.dialect.isSome (environment "AFDIALECT_DIALECT")
  let general ←
    takeVariable general .configuration general.configuration.isSome (environment "AFDIALECT_CONFIG")
  match taskOf? subcommand special with
  | none => .error .invalid
  | some task =>
    return {
      dialect := general.dialect
      configuration := general.configuration
      format := (special.format.or general.format).getD .table
      verbose := special.verbose || general.verbose
      task := task }

end PortableSql.CommandLine
