import PortableSql.Calendar.Basic
import PortableSql.Number.Basic
import PortableSql.Toml.Lexis

/-!
Numbers, dates and times in TOML text. Single underscores may stand between the digits of a number.
Whole numbers lie in the range of 64 bits; binary numbers may not overflow upwards.
-/
namespace PortableSql.Toml

open Number Text

/-- Splits off the digits at the beginning of a text, leaving out single underscores between them. -/
def splitDigits (test : Char → Bool) : List Char → List Char × List Char
  | [] => ([], [])
  | c :: rest =>
    if test c then
      let (digits, behind) := splitDigits test rest
      (c :: digits, behind)
    else if c = '_' ∧ rest.head?.any test then splitDigits test rest
    else ([], c :: rest)

/-- Reads digits, the first of which may not be an underscore. -/
def readDigits (test : Char → Bool) (text : List Char) : Option (List Char × List Char) :=
  if text.head?.any test then some (splitDigits test text) else none

/-- A whole number, if it has room in 64 bits. -/
def integer? (n : Int) : Option Value :=
  if -9223372036854775808 ≤ n ∧ n ≤ 9223372036854775807 then some (.integer n) else none

/-- Whether a character is a digit to a base of at most 16. -/
def isBaseDigit (base : Nat) (c : Char) : Bool :=
  (hexValue? c).any (· < base)

/-- Reads a whole number to a base behind the prefix that says which. -/
def readBased (base : Nat) (text : List Char) : Option (Value × List Char) := do
  let (digits, rest) ← readDigits (isBaseDigit base) text
  let n := digits.foldl (fun n c => base * n + (hexValue? c).getD 0) 0
  let value ← integer? n
  return (value, rest)

/-- Reads the point and the digits of a fraction, if there is a point. -/
def readFraction (text : List Char) : Option (List Char × List Char) :=
  match text with
  | '.' :: rest => (readDigits isDigit rest).map fun (digits, rest) => ('.' :: digits, rest)
  | text => some ([], text)

/-- Splits off a sign. -/
def splitSign (text : List Char) : List Char × List Char :=
  match text with
  | '+' :: rest => (['+'], rest)
  | '-' :: rest => (['-'], rest)
  | text => ([], text)

/-- Reads the letter, the sign and the digits of an exponent, if there is one. -/
def readExponent (text : List Char) : Option (List Char × List Char) :=
  match text with
  | 'e' :: rest | 'E' :: rest =>
    let (sign, rest) := splitSign rest
    (readDigits isDigit rest).map fun (digits, rest) => ('e' :: sign ++ digits, rest)
  | text => some ([], text)

/-- A binary number, if it did not overflow upwards. -/
def float? (text : List Char) : Option Value :=
  (readDouble text).bind fun x =>
    if x.meaning = .infinite false then none else some (.float x)

/-- Reads a number to the base ten. -/
def readDecimal (text : List Char) : Option (Value × List Char) := do
  let (sign, body) := splitSign text
  let (whole, rest) ← readDigits isDigit body
  if whole.head? = some '0' ∧ whole.length ≠ 1 then none
  let (fraction, rest) ← readFraction rest
  let (exponent, rest) ← readExponent rest
  if fraction.isEmpty && exponent.isEmpty then
    let n : Int := decimalValue whole
    let value ← integer? (if sign = ['-'] then -n else n)
    return (value, rest)
  else
    let value ← float? (sign ++ whole ++ fraction ++ exponent)
    return (value, rest)

/-- Reads a number. -/
def readNumber (text : List Char) : Option (Value × List Char) :=
  let (sign, body) := splitSign text
  match text, body with
  | '0' :: 'x' :: rest, _ => readBased 16 rest
  | '0' :: 'o' :: rest, _ => readBased 8 rest
  | '0' :: 'b' :: rest, _ => readBased 2 rest
  | _, 'i' :: 'n' :: 'f' :: rest => some (.float (.ofMeaning (.infinite (sign = ['-']))), rest)
  | _, 'n' :: 'a' :: 'n' :: rest => some (.float (.ofMeaning .nan), rest)
  | _, _ => readDecimal text

/-- Reads a number of exactly `width` digits between two bounds. -/
def readPart (width low high : Nat) (text : List Char) : Option (Nat × List Char) :=
  let digits := text.take width
  let n := decimalValue digits
  if digits.length = width ∧ digits.all isDigit ∧ low ≤ n ∧ n ≤ high then some (n, text.drop width)
  else none

/-- The text behind a character that it starts with. -/
def readMark (c : Char) (text : List Char) : Option (List Char) :=
  if text.head? = some c then some (text.drop 1) else none

/-- The text behind the year, the month and the day of a date. -/
def readDate (text : List Char) : Option (List Char) := do
  let (year, rest) ← readPart 4 0 9999 text
  let (month, rest) ← readPart 2 1 12 (← readMark '-' rest)
  let (_, rest) ← readPart 2 1 (Calendar.daysInMonth year month) (← readMark '-' rest)
  return rest

/-- The text behind the hour and the minute of a time. -/
def readHourMinute (text : List Char) : Option (List Char) := do
  let (_, rest) ← readPart 2 0 23 text
  let (_, rest) ← readPart 2 0 59 (← readMark ':' rest)
  return rest

/-- The text behind a time of day; the second 60 is a leap second. -/
def readTime (text : List Char) : Option (List Char) := do
  let rest ← readHourMinute text
  let (_, rest) ← readPart 2 0 60 (← readMark ':' rest)
  match rest with
  | '.' :: fraction =>
    if fraction.head?.any isDigit then return fraction.dropWhile isDigit else none
  | rest => return rest

/-- The text behind the distance to universal time, if there is one. -/
def skipOffset (text : List Char) : List Char :=
  match text with
  | 'Z' :: rest | 'z' :: rest => rest
  | '+' :: rest | '-' :: rest => (readHourMinute rest).getD text
  | text => text

/-- The text behind a date with an optional time, or behind a time. -/
def readMoment (text : List Char) : Option (List Char) :=
  match readDate text with
  | none => readTime text
  | some rest =>
    match rest with
    | 'T' :: time | 't' :: time | ' ' :: time =>
      some (((readTime time).map skipOffset).getD rest)
    | rest => some rest

/-- Reads a date, a time or a number. -/
def readScalar (text : List Char) : Option (Value × List Char) :=
  match readMoment text with
  | some rest => some (.dateTime (String.ofList (text.take (text.length - rest.length))), rest)
  | none => readNumber text

end PortableSql.Toml
