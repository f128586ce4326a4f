import PortableSql.Dialect.Profile

/-!
The profile of PostgreSQL. Truth values are words of the language and dates
are typed literals; identifiers have a type of their own.
-/
namespace PortableSql.Dialect.Postgres

open Calendar Placeholder

def templates : List (CommandKind × String) :=
  [(.createDatabase, "CREATE DATABASE #DATABASE# ENCODING '#CHARSET#'"),
   (.tableExists, "SELECT count(*) FROM information_schema.tables WHERE table_schema = current_schema() AND table_name = '#TABLENAME#'"),
   (.databaseExists, "SELECT count(*) FROM pg_database WHERE datname = '#DATABASE#'"),
   (.viewExists, "SELECT count(*) FROM information_schema.views WHERE table_schema = current_schema() AND table_name = '#VIEWNAME#'"),
   (.fieldExists, "SELECT count(*) FROM information_schema.columns WHERE table_schema = current_schema() AND table_name = '#TABLENAME#' AND column_name = '#FIELDNAME#'"),
   (.indexExists, "SELECT count(*) FROM pg_indexes WHERE schemaname = current_schema() AND indexname = '#INDEXNAME#'"),
   (.triggerExists, "SELECT count(*) FROM information_schema.triggers WHERE trigger_name = '#TRIGGERNAME#'"),
   (.alterField, "ALTER TABLE #TABLENAME# ALTER COLUMN #FIELDNAME# TYPE #FIELDTYPE#"),
   (.insertReturningKey, "INSERT INTO #TABLENAME# (#FIELDS#) VALUES (#VALUES#) RETURNING #FIELDNAMEKEY#"),
   (.createTrigger, "CREATE TRIGGER #TRIGGERNAME# AFTER #EVENT# ON #TABLENAME# FOR EACH ROW EXECUTE FUNCTION #BODY#"),
   (.dropTrigger, "DROP TRIGGER #TRIGGERNAME# ON #TABLENAME#"),
   (.fieldTypeBinary, "BYTEA"),
   (.fieldTypeGuid, "UUID"),
   (.fieldTypeAutoIncrement, "SERIAL")]

def functions : List PortableFunction :=
  [.builtin "AFToString" 1 "cast(<p1> as text)" "Convert to text",
   .builtin "AFDiffDays" 2 "(<p2>::date - <p1>::date)" "Whole days from the first date to the second",
   .builtin "AFNewGuid" 0 "gen_random_uuid()" "New random identifier"]

def profile : Profile where
  openQuote := '"'
  closeQuote := '"'
  templates := templates
  functions := functions
  yes := "true"
  no := "false"
  literals := {
    dateWord := "DATE "
    date := Pattern.isoDate
    timestampWord := "TIMESTAMP "
    timestamp := Pattern.isoDate ++ [.gap] ++ Pattern.clockTime }
  guidStorage := .native
  identity := ⟨"UTF8", "", ""⟩

end PortableSql.Dialect.Postgres
