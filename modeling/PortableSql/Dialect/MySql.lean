import PortableSql.Dialect.Profile

/-!
The profile of MySQL. Names are quoted with backticks, and tables carry
their character set; identifiers are stored as bytes.
-/
namespace PortableSql.Dialect.MySql

open Calendar Placeholder

def templates : List (CommandKind × String) :=
  [(.createTable, "CREATE TABLE #TABLENAME# (#FIELDS#, PRIMARY KEY (#FIELDNAMEKEY#)) DEFAULT CHARSET=#CHARSET# COLLATE=#COLLATION#"),
   (.createDatabase, "CREATE DATABASE #DATABASE# CHARACTER SET #CHARSET# COLLATE #COLLATION#"),
   (.renameTable, "RENAME TABLE #TABLENAME# TO #NEWNAME#"),
   (.tableExists, "SELECT count(*) FROM information_schema.tables WHERE table_schema = '#DATABASE#' AND table_name = '#TABLENAME#'"),
   (.databaseExists, "SELECT count(*) FROM information_schema.schemata WHERE schema_name = '#DATABASE#'"),
   (.viewExists, "SELECT count(*) FROM information_schema.views WHERE table_schema = '#DATABASE#' AND table_name = '#VIEWNAME#'"),
   (.fieldExists, "SELECT count(*) FROM information_schema.columns WHERE table_schema = '#DATABASE#' AND table_name = '#TABLENAME#' AND column_name = '#FIELDNAME#'"),
   (.indexExists, "SELECT count(*) FROM information_schema.statistics WHERE table_schema = '#DATABASE#' AND table_name = '#TABLENAME#' AND index_name = '#INDEXNAME#'"),
   (.triggerExists, "SELECT count(*) FROM information_schema.triggers WHERE trigger_schema = '#DATABASE#' AND trigger_name = '#TRIGGERNAME#'"),
   (.alterField, "ALTER TABLE #TABLENAME# MODIFY COLUMN #FIELDNAME# #FIELDTYPE#"),
   (.dropIndex, "DROP INDEX #INDEXNAME# ON #TABLENAME#"),
   (.insertReturningKey, "INSERT INTO #TABLENAME# (#FIELDS#) VALUES (#VALUES#); SELECT LAST_INSERT_ID()"),
   (.fieldTypeText, "LONGTEXT"),
   (.fieldTypeByte, "TINYINT UNSIGNED"),
   (.fieldTypeBool, "TINYINT(1)"),
   (.fieldTypeFloat, "FLOAT"),
   (.fieldTypeDouble, "DOUBLE"),
   (.fieldTypeDateTime, "DATETIME"),
   (.fieldTypeBinary, "LONGBLOB"),
   (.fieldTypeGuid, "BINARY(16)"),
   (.fieldTypeAutoIncrement, "INT AUTO_INCREMENT")]

def functions : List PortableFunction :=
  [.builtin "AFLength" 1 "char_length(<p1>)" "Length in characters",
   .builtin "AFConcat" 2 "concat(<p1>, <p2>)" "Concatenate strings",
   .builtin "AFConcat" 3 "concat(<p1>, <p2>, <p3>)" "Concatenate strings",
   .builtin "AFConcat" 4 "concat(<p1>, <p2>, <p3>, <p4>)" "Concatenate strings",
   .builtin "AFConcat" 5 "concat(<p1>, <p2>, <p3>, <p4>, <p5>)" "Concatenate strings",
   .builtin "AFPosition" 2 "locate(<p1>, <p2>)" "1-based position of a needle, 0 if absent",
   .builtin "AFRandom" 0 "rand()" "Random number",
   .builtin "AFAddDays" 2 "date_add(<p1>, interval <p2> day)" "Shift a date by days",
   .builtin "AFAddMonths" 2 "date_add(<p1>, interval <p2> month)" "Shift a date by months",
   .builtin "AFDiffDays" 2 "datediff(<p2>, <p1>)" "Whole days from the first date to the second",
   .builtin "AFToString" 1 "cast(<p1> as char)" "Convert to text",
   .builtin "AFToInt" 1 "cast(<p1> as signed)" "Convert to an integer"]

def profile : Profile where
  openQuote := '\x60'
  closeQuote := '\x60'
  templates := templates
  functions := functions
  yes := "1"
  no := "0"
  literals := DateLiterals.iso
  guidStorage := .bytes
  identity := ⟨"utf8mb4", "utf8mb4_unicode_ci", ""⟩

end PortableSql.Dialect.MySql
