import PortableSql.Configuration.Basic

/-!
Reading configurations from TOML documents. Keys without a meaning are passed over; a key with a meaning
must have a value of its type. One of several cases is written as its name, or as a table whose only key
is the name. The settings of the engine may be a table, or an array of their values in order.
-/
namespace PortableSql.Configuration

open Toml

/-- The value under a key, decoded; a key that is missing leaves the value as it is. -/
def readField {α : Type} (decode : Toml.Value → Option α) (missing : α) (name : String)
    (entries : Entries) : Option α :=
  match Table.findEntry name entries with
  | some value => decode value
  | none => some missing

def readText : Toml.Value → Option String
  | .string s => some s
  | _ => none

def readSize : Toml.Value → Option Nat
  | .integer n => n.toNat?
  | _ => none

/-- Whether a value may stand behind the name of a case that holds nothing. -/
def isNothing : Toml.Value → Bool
  | .table _ [] | .array [] => true
  | _ => false

/-- Reads one of several cases that hold nothing. -/
def readCase {α : Type} (ofName? : String → Option α) : Toml.Value → Option α
  | .string name => ofName? name
  | .table _ [(name, content)] => if isNothing content then ofName? name else none
  | _ => none

/-- The names of engines in documents. -/
def dialectNames : List (String × Dialect) :=
  [("postgres", .postgres), ("mysql", .mySql), ("mariadb", .mySql), ("sqlite", .sqlite),
   ("sqlserver", .sqlServer), ("mssql", .sqlServer)]

def readDialect : Toml.Value → Option Dialect :=
  readCase fun name => dialectNames.lookup name

def readGuidStorage : Toml.Value → Option GuidStorage :=
  readCase GuidStorage.ofName?

/-- Reads how wide text is: `unbounded`, or `fixed_width` with a number of characters. -/
def readTextPolicy : Toml.Value → Option TextPolicy
  | .table _ [("fixed_width", width)] => (readSize width).map .fixedWidth
  | value => readCase (fun name => if name = "unbounded" then some .unbounded else none) value

/-- Reads settings under their names. -/
def readSettings (entries : Entries) : Option EngineSettings := do
  return {
    charset := ← readField (fun v => (readText v).map some) none "charset" entries
    collation := ← readField (fun v => (readText v).map some) none "collation" entries
    database := ← readField (fun v => (readText v).map some) none "database" entries
    textPolicy := ← readField readTextPolicy .unbounded "text_policy" entries
    guidStorage := ← readField (fun v => (readGuidStorage v).map some) none "guid_storage" entries
    maxDepth := ← readField (fun v => (readSize v).map some) none "max_rewrite_depth" entries }

/-- The names of the settings in their order. -/
def settingNames : List String :=
  ["charset", "collation", "database", "text_policy", "guid_storage", "max_rewrite_depth"]

/-- Reads the settings of an engine. -/
def readEngine : Toml.Value → Option EngineSettings
  | .table _ entries => readSettings entries
  | .array items => readSettings (settingNames.zip items)
  | .dateTime _ => some .unset
  | _ => none

/-- Reads a configuration from the entries of a document. -/
def ofEntries (entries : Entries) : Option Configuration := do
  return {
    dialect := ← readField readDialect default.dialect "dialect" entries
    engine := ← readField readEngine .unset "engine" entries }

/-- Reads a configuration. -/
def read (text : String) : Option Configuration :=
  (Toml.read text.toList).bind ofEntries

end PortableSql.Configuration
