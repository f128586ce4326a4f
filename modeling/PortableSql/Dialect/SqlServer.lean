import PortableSql.Dialect.Profile

/-!
The profile of SQL Server. Names are quoted with brackets. Dates are written
without separators and timestamps with a `T`, which every language setting reads alike.
-/
namespace PortableSql.Dialect.SqlServer

open Calendar Placeholder

def templates : List (CommandKind × String) :=
  [(.createDatabase, "CREATE DATABASE #DATABASE# COLLATE #COLLATION#"),
   (.renameTable, "EXEC sp_rename '#TABLENAME#', '#NEWNAME#'"),
   (.tableExists, "SELECT count(*) FROM INFORMATION_SCHEMA.TABLES WHERE TABLE_NAME = '#TABLENAME#'"),
   (.databaseExists, "SELECT count(*) FROM sys.databases WHERE name = '#DATABASE#'"),
   (.viewExists, "SELECT count(*) FROM INFORMATION_SCHEMA.VIEWS WHERE TABLE_NAME = '#VIEWNAME#'"),
   (.fieldExists, "SELECT count(*) FROM INFORMATION_SCHEMA.COLUMNS WHERE TABLE_NAME = '#TABLENAME#' AND COLUMN_NAME = '#FIELDNAME#'"),
   (.indexExists, "SELECT count(*) FROM sys.indexes WHERE name = '#INDEXNAME#' AND object_id = OBJECT_ID('#TABLENAME#')"),
   (.triggerExists, "SELECT count(*) FROM sys.triggers WHERE name = '#TRIGGERNAME#'"),
   (.alterField, "ALTER TABLE #TABLENAME# ALTER COLUMN #FIELDNAME# #FIELDTYPE#"),
   (.dropIndex, "DROP INDEX #INDEXNAME# ON #TABLENAME#"),
   (.createTrigger, "CREATE TRIGGER #TRIGGERNAME# ON #TABLENAME# AFTER #EVENT# AS BEGIN #BODY# END"),
   (.selectTop, "SELECT TOP #COUNT# #FIELDS# FROM #TABLENAME#"),
   (.insertReturningKey, "INSERT INTO #TABLENAME# (#FIELDS#) OUTPUT INSERTED.#FIELDNAMEKEY# VALUES (#VALUES#)"),
   (.fieldTypeString, "NVARCHAR(#SIZE#)"),
   (.fieldTypeText, "NVARCHAR(MAX)"),
   (.fieldTypeByte, "TINYINT"),
   (.fieldTypeBool, "BIT"),
   (.fieldTypeDouble, "FLOAT"),
   (.fieldTypeDateTime, "DATETIME2"),
   (.fieldTypeBinary, "VARBINARY(MAX)"),
   (.fieldTypeGuid, "UNIQUEIDENTIFIER"),
   (.fieldTypeAutoIncrement, "INT IDENTITY(1,1)")]

def functions : List PortableFunction :=
  [.builtin "AFTrim" 1 "ltrim(rtrim(<p1>))" "Strip leading and trailing spaces",
   .builtin "AFLength" 1 "len(<p1>)" "Length in characters",
   .builtin "AFSubstring" 2 "substring(<p1>, <p2>, len(<p1>))" "Suffix starting at a 1-based position",
   .builtin "AFSubstring" 3 "substring(<p1>, <p2>, <p3>)" "Substring by 1-based position and length",
   .builtin "AFLeft" 2 "left(<p1>, <p2>)" "Leading characters",
   .builtin "AFConcat" 2 "concat(<p1>, <p2>)" "Concatenate strings",
   .builtin "AFConcat" 3 "concat(<p1>, <p2>, <p3>)" "Concatenate strings",
   .builtin "AFConcat" 4 "concat(<p1>, <p2>, <p3>, <p4>)" "Concatenate strings",
   .builtin "AFConcat" 5 "concat(<p1>, <p2>, <p3>, <p4>, <p5>)" "Concatenate strings",
   .builtin "AFPosition" 2 "charindex(<p1>, <p2>)" "1-based position of a needle, 0 if absent",
   .builtin "AFIsNull" 2 "isnull(<p1>, <p2>)" "Fallback for a null value",
   .builtin "AFRound" 1 "round(<p1>, 0)" "Round to an integer",
   .builtin "AFMod" 2 "(<p1> % <p2>)" "Remainder of a division",
   .builtin "AFRandom" 0 "rand()" "Random number",
   .builtin "AFNow" 0 "getdate()" "Current timestamp",
   .builtin "AFToday" 0 "cast(getdate() as date)" "Current date",
   .builtin "AFYear" 1 "year(<p1>)" "Year part",
   .builtin "AFMonth" 1 "month(<p1>)" "Month part",
   .builtin "AFDay" 1 "day(<p1>)" "Day-of-month part",
   .builtin "AFHour" 1 "datepart(hour, <p1>)" "Hour part",
   .builtin "AFMinute" 1 "datepart(minute, <p1>)" "Minute part",
   .builtin "AFAddDays" 2 "dateadd(day, <p2>, <p1>)" "Shift a date by days",
   .builtin "AFAddMonths" 2 "dateadd(month, <p2>, <p1>)" "Shift a date by months",
   .builtin "AFDiffDays" 2 "datediff(day, <p1>, <p2>)" "Whole days from the first date to the second",
   .builtin "AFToString" 1 "cast(<p1> as nvarchar(max))" "Convert to text",
   .builtin "AFNewGuid" 0 "newid()" "New random identifier"]

def profile : Profile where
  openQuote := '['
  closeQuote := ']'
  templates := templates
  functions := functions
  yes := "1"
  no := "0"
  literals := {
    dateWord := ""
    date := [.year, .month, .day]
    timestampWord := ""
    timestamp := Pattern.isoDate ++ [.mark 'T'] ++ Pattern.clockTime }
  guidStorage := .mixedEndianBytes
  identity := ⟨"", "SQL_Latin1_General_CP1_CI_AS", ""⟩

end PortableSql.Dialect.SqlServer
