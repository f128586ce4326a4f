import PortableSql.Calendar.Basic
import PortableSql.Number.Power
import PortableSql.Text.Blank
import PortableSql.Text.Letters

/-!
Patterns of dates and times, for printing and for reading. Printed numbers have a fixed width: years
outside 0 to 9999 carry a sign. Reading is more lenient: blanks may stand before every number, a number
may be shorter than its width, and a year with a sign may have any number of digits.
-/
namespace PortableSql.Calendar

open Number (tenPow)
open Text

/-- One part of a pattern. -/
inductive Part
  | year | month | day | hour | minute | second
  /-- A decimal point and the digits of the nanoseconds, or nothing. -/
  | fraction
  /-- One blank when printed, any number of blanks when read. -/
  | gap
  | mark (c : Char)
  deriving DecidableEq, Repr

abbrev Pattern := List Part

namespace Pattern

def isoDate : Pattern :=
  [.year, .mark '-', .month, .mark '-', .day]

def hourMinute : Pattern :=
  [.hour, .mark ':', .minute]

def clockTime : Pattern :=
  hourMinute ++ [.mark ':', .second]

end Pattern

/-- Decimal digits, with zeros in front up to a width. -/
def padded (width n : Nat) : List Char :=
  let digits := (Nat.repr n).toList
  List.replicate (width - digits.length) '0' ++ digits

/-- A year: four digits at least, and a sign where there are years of more digits or before 0. -/
def printYear (year : Int) : List Char :=
  if 0 ≤ year ∧ year ≤ 9999 then
    padded 4 year.toNat
  else
    (if year < 0 then '-' else '+') :: padded 4 year.natAbs

/-- The digits of the nanoseconds behind the decimal point, in groups of three; none for zero. -/
def printFraction (nanosecond : Nat) : List Char :=
  let n := nanosecond % nanosecondsPerSecond
  if n = 0 then []
  else if n % 1000000 = 0 then '.' :: padded 3 (n / 1000000)
  else if n % 1000 = 0 then '.' :: padded 6 (n / 1000)
  else '.' :: padded 9 n

def Part.print (t : DateTime) : Part → List Char
  | .year => printYear t.date.year
  | .month => padded 2 t.date.month
  | .day => padded 2 t.date.day
  | .hour => padded 2 t.time.hour
  | .minute => padded 2 t.time.minute
  | .second => padded 2 t.time.shownSecond
  | .fraction => printFraction t.time.nanosecond
  | .gap => [' ']
  | .mark c => [c]

def Pattern.print (pattern : Pattern) (t : DateTime) : String :=
  String.ofList (pattern.flatMap (Part.print t))

/-- The numbers that a text gave for the parts of a pattern. -/
structure Fields where
  year : Option Int
  month : Option Nat
  day : Option Nat
  hour : Option Nat
  minute : Option Nat
  second : Option Nat
  nanosecond : Option Nat
  deriving DecidableEq, Repr

namespace Fields

def none : Fields :=
  ⟨.none, .none, .none, .none, .none, .none, .none⟩

end Fields

/-- Reads digits, at least one and at most `width`. -/
def readDigits (width : Nat) (text : List Char) : Option (Nat × List Char) :=
  let digits := (text.take width).takeWhile isDigit
  if digits.isEmpty then none else some (decimalValue digits, text.drop digits.length)

/-- Reads all digits that stand at the beginning of a text, at least one. -/
def readAllDigits (text : List Char) : Option (Nat × List Char) :=
  readDigits text.length text

/-- Reads a year: up to four digits, or a sign and any number of digits. -/
def readYear (text : List Char) : Option (Int × List Char) :=
  match text with
  | '+' :: rest => (readAllDigits rest).map fun (n, rest) => (Int.ofNat n, rest)
  | '-' :: rest => (readAllDigits rest).map fun (n, rest) => (-Int.ofNat n, rest)
  | text => (readDigits 4 text).map fun (n, rest) => (Int.ofNat n, rest)

/-- Reads the nanoseconds behind a decimal point; digits behind the ninth do not count. -/
def readFraction (text : List Char) : Option (Nat × List Char) :=
  let digits := text.takeWhile isDigit
  let counted := digits.take 9
  if digits.isEmpty then none
  else some (decimalValue counted * tenPow (9 - counted.length), text.drop digits.length)

/-- Reads one part of a pattern. -/
def Part.read (fields : Fields) (text : List Char) : Part → Option (Fields × List Char)
  | .year => (readYear (trimStart text)).map fun (n, rest) => ({ fields with year := some n }, rest)
  | .month =>
    (readDigits 2 (trimStart text)).map fun (n, rest) => ({ fields with month := some n }, rest)
  | .day =>
    (readDigits 2 (trimStart text)).map fun (n, rest) => ({ fields with day := some n }, rest)
  | .hour =>
    (readDigits 2 (trimStart text)).map fun (n, rest) => ({ fields with hour := some n }, rest)
  | .minute =>
    (readDigits 2 (trimStart text)).map fun (n, rest) => ({ fields with minute := some n }, rest)
  | .second =>
    (readDigits 2 (trimStart text)).map fun (n, rest) => ({ fields with second := some n }, rest)
  | .fraction =>
    match text with
    | '.' :: rest =>
      (readFraction rest).map fun (n, rest) => ({ fields with nanosecond := some n }, rest)
    | text => some (fields, text)
  | .gap => some (fields, trimStart text)
  | .mark c =>
    match text with
    | d :: rest => if c = d then some (fields, rest) else none
    | [] => none

/-- Reads the parts of a pattern one after the other; nothing may be left over. -/
def Pattern.readParts (pattern : Pattern) (fields : Fields) (text : List Char) : Option Fields :=
  match pattern with
  | [] => if text.isEmpty then some fields else none
  | part :: rest => (part.read fields text).bind fun (fields, text) => readParts rest fields text

def Pattern.read (pattern : Pattern) (text : List Char) : Option Fields :=
  pattern.readParts .none text

namespace Fields

def date? (fields : Fields) : Option Date := do
  Date.of? (← fields.year) (← fields.month) (← fields.day)

/-- The time that the fields give. The second 60 is the leap second behind the second 59. -/
def time? (fields : Fields) : Option Time := do
  let hour ← fields.hour
  let minute ← fields.minute
  let second := fields.second.getD 0
  let nanosecond := fields.nanosecond.getD 0
  if second = 60 then
    Time.of? hour minute 59 (nanosecond + nanosecondsPerSecond)
  else
    Time.of? hour minute second nanosecond

def dateTime? (fields : Fields) : Option DateTime := do
  return ⟨← fields.date?, ← fields.time?⟩

end Fields

namespace Pattern

/-- The ways in which a timestamp may be written, in the order in which they are tried. -/
def dateTimes : List Pattern :=
  [isoDate ++ [.gap] ++ clockTime ++ [.fraction],
   isoDate ++ [.mark 'T'] ++ clockTime ++ [.fraction],
   isoDate ++ [.gap] ++ hourMinute]

/-- The ways in which a time of day may be written. -/
def times : List Pattern :=
  [clockTime ++ [.fraction], hourMinute]

end Pattern

/-- The date that a text is, with any blanks around it. -/
def readDate (text : List Char) : Option Date :=
  (Pattern.isoDate.read (trim text)).bind Fields.date?

/-- The time of day that a text is, with any blanks around it. -/
def readTime (text : List Char) : Option Time :=
  Pattern.times.findSome? fun pattern => (pattern.read (trim text)).bind Fields.time?

/-- The timestamp that a text is, with any blanks around it; a date alone is its midnight. -/
def readDateTime (text : List Char) : Option DateTime :=
  let written := Pattern.dateTimes.findSome? fun pattern =>
    (pattern.read (trim text)).bind Fields.dateTime?
  written.orElse fun _ => (readDate text).map fun date => ⟨date, .midnight⟩

end PortableSql.Calendar
