import PortableSql.Calendar.Pattern
import PortableSql.Placeholder.Registry

/-!
The placeholders that every engine has: dates around the present day, the present time and the truth
values, each as a literal of the engine.
-/
namespace PortableSql.Placeholder

open Calendar

/-- How an engine writes dates and timestamps: a word, and a quoted text behind it. -/
structure DateLiterals where
  dateWord : String
  date : Pattern
  timestampWord : String
  timestamp : Pattern
  deriving DecidableEq, Repr

namespace DateLiterals

/-- Quoted ISO 8601 text. -/
def iso : DateLiterals where
  dateWord := ""
  date := Pattern.isoDate
  timestampWord := ""
  timestamp := Pattern.isoDate ++ [.gap] ++ Pattern.clockTime

/-- The literal of a date. -/
def dateLiteral (literals : DateLiterals) (date : Date) : String :=
  literals.dateWord ++ "'" ++ literals.date.print ⟨date, .midnight⟩ ++ "'"

/-- The literal of a timestamp. -/
def timestampLiteral (literals : DateLiterals) (t : DateTime) : String :=
  literals.timestampWord ++ "'" ++ literals.timestamp.print t ++ "'"

end DateLiterals

/-- The placeholders that stand for dates, each with its date on a given day. -/
def dateRules : List (String × (Date → Date)) :=
  [("#TODAY#", fun d => d),
   ("#YESTERDAY#", Date.yesterday),
   ("#TOMORROW#", Date.tomorrow),
   ("#FIRSTDAYOFMONTH#", Date.firstOfMonth),
   ("#LASTDAYOFMONTH#", Date.lastOfMonth),
   ("#FIRSTDAYOFYEAR#", Date.firstOfYear),
   ("#LASTDAYOFYEAR#", Date.lastOfYear)]

namespace Registry

/-- Stores the placeholders for dates and for the present time. -/
def registerDates (registry : Registry) (literals : DateLiterals) : Registry :=
  let dates := dateRules.foldl
    (fun registry (name, rule) =>
      registry.insert name (.ofClock fun now => literals.dateLiteral (rule now.date)))
    registry
  dates.insert "#NOW#" (.ofClock literals.timestampLiteral)

/-- Stores the placeholders for the truth values. -/
def registerBooleans (registry : Registry) (yes no : String) : Registry :=
  (registry.insert "#TRUE#" (.fixed yes)).insert "#FALSE#" (.fixed no)

end Registry

end PortableSql.Placeholder
