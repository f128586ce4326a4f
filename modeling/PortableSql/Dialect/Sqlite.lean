import PortableSql.Dialect.Profile

/-!
The profile of SQLite. There is no way to alter a column, so that kind
of command has no template; identifiers are stored as text.
-/
namespace PortableSql.Dialect.Sqlite

open Calendar Placeholder

def templates : List (CommandKind × String) :=
  [(.tableExists, "SELECT count(*) FROM sqlite_master WHERE type = 'table' AND name = '#TABLENAME#'"),
   (.viewExists, "SELECT count(*) FROM sqlite_master WHERE type = 'view' AND name = '#VIEWNAME#'"),
   (.indexExists, "SELECT count(*) FROM sqlite_master WHERE type = 'index' AND name = '#INDEXNAME#'"),
   (.triggerExists, "SELECT count(*) FROM sqlite_master WHERE type = 'trigger' AND name = '#TRIGGERNAME#'"),
   (.fieldExists, "SELECT count(*) FROM pragma_table_info('#TABLENAME#') WHERE name = '#FIELDNAME#'"),
   (.insertReturningKey, "INSERT INTO #TABLENAME# (#FIELDS#) VALUES (#VALUES#) RETURNING #FIELDNAMEKEY#"),
   (.createTrigger, "CREATE TRIGGER #TRIGGERNAME# AFTER #EVENT# ON #TABLENAME# FOR EACH ROW BEGIN #BODY#; END"),
   (.fieldTypeString, "TEXT"),
   (.fieldTypeByte, "INTEGER"),
   (.fieldTypeShort, "INTEGER"),
   (.fieldTypeLong, "INTEGER"),
   (.fieldTypeBool, "INTEGER"),
   (.fieldTypeDecimal, "NUMERIC"),
   (.fieldTypeDateTime, "DATETIME"),
   (.fieldTypeGuid, "TEXT"),
   (.fieldTypeAutoIncrement, "INTEGER PRIMARY KEY AUTOINCREMENT")]

def functions : List PortableFunction :=
  [.builtin "AFSubstring" 2 "substr(<p1>, <p2>)" "Suffix starting at a 1-based position",
   .builtin "AFSubstring" 3 "substr(<p1>, <p2>, <p3>)" "Substring by 1-based position and length",
   .builtin "AFLeft" 2 "substr(<p1>, 1, <p2>)" "Leading characters",
   .builtin "AFRight" 2 "substr(<p1>, -(<p2>))" "Trailing characters",
   .builtin "AFPosition" 2 "instr(<p2>, <p1>)" "1-based position of a needle, 0 if absent",
   .builtin "AFCeiling" 1 "(cast(<p1> as integer) + (<p1> > cast(<p1> as integer)))" "Smallest integer not below the value",
   .builtin "AFFloor" 1 "(cast(<p1> as integer) - (<p1> < cast(<p1> as integer)))" "Largest integer not above the value",
   .builtin "AFMod" 2 "(<p1> % <p2>)" "Remainder of a division",
   .builtin "AFNow" 0 "datetime('now')" "Current timestamp",
   .builtin "AFToday" 0 "date('now')" "Current date",
   .builtin "AFYear" 1 "cast(strftime('%Y', <p1>) as integer)" "Year part",
   .builtin "AFMonth" 1 "cast(strftime('%m', <p1>) as integer)" "Month part",
   .builtin "AFDay" 1 "cast(strftime('%d', <p1>) as integer)" "Day-of-month part",
   .builtin "AFHour" 1 "cast(strftime('%H', <p1>) as integer)" "Hour part",
   .builtin "AFMinute" 1 "cast(strftime('%M', <p1>) as integer)" "Minute part",
   .builtin "AFAddDays" 2 "date(<p1>, (<p2>) || ' days')" "Shift a date by days",
   .builtin "AFAddMonths" 2 "date(<p1>, (<p2>) || ' months')" "Shift a date by months",
   .builtin "AFDiffDays" 2 "cast(julianday(<p2>) - julianday(<p1>) as integer)" "Whole days from the first date to the second",
   .builtin "AFDateOnly" 1 "date(<p1>)" "Drop the time of day",
   .builtin "AFToString" 1 "cast(<p1> as text)" "Convert to text",
   .builtin "AFToDecimal" 3 "round(cast(<p1> as real), <p3>)" "Convert to a decimal of given precision and scale",
   .builtin "AFNewGuid" 0 "lower(hex(randomblob(16)))" "New random identifier"]

def profile : Profile where
  openQuote := '"'
  closeQuote := '"'
  templates := templates
  functions := functions
  yes := "1"
  no := "0"
  literals := DateLiterals.iso
  guidStorage := .text
  identity := ⟨"", "", ""⟩

end PortableSql.Dialect.Sqlite
