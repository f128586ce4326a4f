import PortableSql.Dialect.MySql
import PortableSql.Dialect.Postgres
import PortableSql.Dialect.SqlServer
import PortableSql.Dialect.Sqlite
import PortableSql.Text.Blank

/-!
The engines that queries are translated for, and their names.
-/
namespace PortableSql

open Text

inductive Dialect
  | postgres | mySql | sqlite | sqlServer
  deriving DecidableEq, Repr

namespace Dialect

def all : List Dialect :=
  [.postgres, .mySql, .sqlite, .sqlServer]

def name : Dialect → String
  | .postgres => "postgres"
  | .mySql => "mysql"
  | .sqlite => "sqlite"
  | .sqlServer => "sqlserver"

/-- The names that an engine is known by. -/
def aliases : Dialect → List String
  | .postgres => ["postgres", "postgresql", "pg"]
  | .mySql => ["mysql", "mariadb"]
  | .sqlite => ["sqlite", "sqlite3"]
  | .sqlServer => ["sqlserver", "mssql", "tsql"]

/-- The form in which names of engines are compared. -/
def normalizedName (text : String) : String :=
  foldCase (trimmed text)

/-- The engine that a name means; case and surrounding blanks do not count. -/
def ofName? (text : String) : Option Dialect :=
  all.find? fun dialect => dialect.aliases.contains (normalizedName text)

/-- What is said of a name that no engine has. -/
def unknownName (text : String) : String :=
  s!"unknown dialect '{normalizedName text}'"

def profile : Dialect → Profile
  | .postgres => Postgres.profile
  | .mySql => MySql.profile
  | .sqlite => Sqlite.profile
  | .sqlServer => SqlServer.profile

/-- A name between the quotes of an engine. -/
def quoteIdentifier (dialect : Dialect) (name : String) : String :=
  dialect.profile.quoteName name

/-- The shared functions and the engine's own. -/
def catalog (dialect : Dialect) : Catalog :=
  (Catalog.empty.registerAll sharedFunctions).registerAll dialect.profile.functions

/-- The shared templates and the engine's own. -/
def commands (dialect : Dialect) (identity : Command.Identity) : Command.Registry :=
  (Command.Registry.new identity).registerAll dialect.profile.templates

/-- The placeholders for dates and truth values. -/
def placeholders (dialect : Dialect) : Placeholder.Registry :=
  (Placeholder.Registry.empty.registerDates dialect.profile.literals).registerBooleans
    dialect.profile.yes dialect.profile.no

end Dialect

end PortableSql
