import PortableSql.Configuration.Reader

/-!
Where the configuration comes from: the file that the caller names, or else the first that exists of the
file in the working directory and the file in the user's configuration directory, or else no file at all.
-/
namespace PortableSql.Configuration

/-- Why a file cannot be read. -/
structure FileError where
  reason : String
  deriving DecidableEq, Repr

namespace FileError

def missing : FileError :=
  ⟨"No such file or directory (os error 2)"⟩

end FileError

/-- The texts of files by path. -/
abbrev Files := String → Except FileError String

/-- Why there is no configuration. -/
inductive LoadError
  | unreadable (e : FileError)
  | malformed
  deriving DecidableEq, Repr

namespace LoadError

def message : LoadError → String
  | .unreadable e => s!"IO error: {e.reason}"
  | .malformed => "Configuration error"

/-- The message, followed by the message of what caused the error. -/
def chain : LoadError → String
  | .unreadable e => s!"IO error: {e.reason}: {e.reason}"
  | .malformed => "Configuration error"

end LoadError

def parse (text : String) : Except LoadError Configuration :=
  match read text with
  | some configuration => .ok configuration
  | none => .error .malformed

/-- The configuration in a file. -/
def load (files : Files) (path : String) : Except LoadError Configuration :=
  match files path with
  | .ok text => parse text
  | .error e => .error (.unreadable e)

/-- The name of the file in the working directory. -/
def fileName : String := "afdialect.toml"

/-- The files that are looked for when the caller names none. -/
def searchPaths (userFolder : Option String) : List String :=
  fileName :: (userFolder.map fun folder => folder ++ "/afdialect/config.toml").toList

/-- Loads the first file that exists, or none. -/
def loadFirst (files : Files) : List String → Except LoadError Configuration
  | [] => .ok default
  | path :: paths =>
    match files path with
    | .error e => if e = .missing then loadFirst files paths else .error (.unreadable e)
    | .ok text => parse text

/-- Finds the configuration. -/
def discover (files : Files) (userFolder path : Option String) : Except LoadError Configuration :=
  match path with
  | some path => load files path
  | none => loadFirst files (searchPaths userFolder)

end PortableSql.Configuration
