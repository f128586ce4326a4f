import PortableSql.Catalog.Basic

/-!
The portable functions that every engine has, spelled as most engines spell them. An engine replaces
the entries that it spells otherwise.
-/
namespace PortableSql

/-- An entry of a built-in vocabulary. -/
def PortableFunction.builtin (name : String) (arity : Nat) (template description : String) :
    PortableFunction :=
  ⟨name, arity, template, some description⟩

namespace Dialect

def sharedFunctions : List PortableFunction :=
  [.builtin "AFUpper" 1 "upper(<p1>)" "Upper-case a string",
   .builtin "AFLower" 1 "lower(<p1>)" "Lower-case a string",
   .builtin "AFTrim" 1 "trim(<p1>)" "Strip leading and trailing spaces",
   .builtin "AFLTrim" 1 "ltrim(<p1>)" "Strip leading spaces",
   .builtin "AFRTrim" 1 "rtrim(<p1>)" "Strip trailing spaces",
   .builtin "AFLength" 1 "length(<p1>)" "Length in characters",
   .builtin "AFSubstring" 2 "substring(<p1> from <p2>)" "Suffix starting at a 1-based position",
   .builtin "AFSubstring" 3 "substring(<p1> from <p2> for <p3>)" "Substring by 1-based position and length",
   .builtin "AFLeft" 2 "substring(<p1> from 1 for <p2>)" "Leading characters",
   .builtin "AFRight" 2 "right(<p1>, <p2>)" "Trailing characters",
   .builtin "AFConcat" 2 "<p1> || <p2>" "Concatenate strings",
   .builtin "AFConcat" 3 "<p1> || <p2> || <p3>" "Concatenate strings",
   .builtin "AFConcat" 4 "<p1> || <p2> || <p3> || <p4>" "Concatenate strings",
   .builtin "AFConcat" 5 "<p1> || <p2> || <p3> || <p4> || <p5>" "Concatenate strings",
   .builtin "AFReplace" 3 "replace(<p1>, <p2>, <p3>)" "Replace every occurrence",
   .builtin "AFPosition" 2 "position(<p1> in <p2>)" "1-based position of a needle, 0 if absent",
   .builtin "AFIsNull" 2 "coalesce(<p1>, <p2>)" "Fallback for a null value",
   .builtin "AFCoalesce" 2 "coalesce(<p1>, <p2>)" "First non-null value",
   .builtin "AFCoalesce" 3 "coalesce(<p1>, <p2>, <p3>)" "First non-null value",
   .builtin "AFCoalesce" 4 "coalesce(<p1>, <p2>, <p3>, <p4>)" "First non-null value",
   .builtin "AFCoalesce" 5 "coalesce(<p1>, <p2>, <p3>, <p4>, <p5>)" "First non-null value",
   .builtin "AFRound" 1 "round(<p1>)" "Round to an integer",
   .builtin "AFRound" 2 "round(<p1>, <p2>)" "Round to a number of decimals",
   .builtin "AFAbs" 1 "abs(<p1>)" "Absolute value",
   .builtin "AFCeiling" 1 "ceiling(<p1>)" "Smallest integer not below the value",
   .builtin "AFFloor" 1 "floor(<p1>)" "Largest integer not above the value",
   .builtin "AFMod" 2 "mod(<p1>, <p2>)" "Remainder of a division",
   .builtin "AFRandom" 0 "random()" "Random number",
   .builtin "AFNow" 0 "current_timestamp" "Current timestamp",
   .builtin "AFToday" 0 "current_date" "Current date",
   .builtin "AFYear" 1 "extract(year from <p1>)" "Year part",
   .builtin "AFMonth" 1 "extract(month from <p1>)" "Month part",
   .builtin "AFDay" 1 "extract(day from <p1>)" "Day-of-month part",
   .builtin "AFHour" 1 "extract(hour from <p1>)" "Hour part",
   .builtin "AFMinute" 1 "extract(minute from <p1>)" "Minute part",
   .builtin "AFAddDays" 2 "(<p1> + <p2> * interval '1 day')" "Shift a date by days",
   .builtin "AFAddMonths" 2 "(<p1> + <p2> * interval '1 month')" "Shift a date by months",
   .builtin "AFDiffDays" 2 "(cast(<p2> as date) - cast(<p1> as date))" "Whole days from the first date to the second",
   .builtin "AFDateOnly" 1 "cast(<p1> as date)" "Drop the time of day",
   .builtin "AFToString" 1 "cast(<p1> as varchar(255))" "Convert to text",
   .builtin "AFToInt" 1 "cast(<p1> as integer)" "Convert to an integer",
   .builtin "AFToDecimal" 3 "cast(<p1> as decimal(<p2>, <p3>))" "Convert to a decimal of given precision and scale",
   .builtin "AFNewGuid" 0 "uuid()" "New random identifier"]

end Dialect

end PortableSql
