import PortableSql.Number.Conversion
import PortableSql.Text.Blank

/-!
Numbers in the shape in which they arrive: whole, binary or decimal. Text is read as the first of these
that it is a number of, so `1.50` is a decimal and `1e3` is binary.
-/
namespace PortableSql.Number

open Text

/-- A number of any shape. -/
inductive AnyNumber
  | whole (n : Int)
  | binary (x : Double)
  | decimal (d : Decimal)
  deriving DecidableEq, Repr

/-- Whether a whole number has room in 128 bits. -/
def inWideRange (n : Int) : Bool :=
  -170141183460469231731687303715884105728 ≤ n && n ≤ 170141183460469231731687303715884105727

/-- Whole numbers that are read from text lie in the range of 128 bits. -/
def readWhole (text : List Char) : Option Int :=
  let unsigned (digits : List Char) : Option Nat :=
    if digits.isEmpty || !digits.all isDigit then none else some (decimalValue digits)
  let value : Option Int :=
    match text with
    | '-' :: digits => (unsigned digits).map fun n => -(n : Int)
    | '+' :: digits => (unsigned digits).map Int.ofNat
    | digits => (unsigned digits).map Int.ofNat
  value.filter inWideRange

/-- The number nearest to a whole number times a power of ten. -/
def scaledDouble (negative : Bool) (mantissa : Nat) (exponent : Int) : Double :=
  let size : Int := (digitCount mantissa : Int) + exponent
  if mantissa = 0 ∨ size < -400 then Double.ofQuotient negative 0 1
  else if 400 < size then .ofMeaning (.infinite negative)
  else if 0 ≤ exponent then Double.ofQuotient negative (mantissa * tenPow exponent.toNat) 1
  else Double.ofQuotient negative mantissa (tenPow (-exponent).toNat)

/-- Reads the exponent of a binary number, with its letter, or nothing. -/
def readExponent (text : List Char) : Option Int :=
  let unsigned (digits : List Char) : Option Nat :=
    if digits.isEmpty || !digits.all isDigit then none else some (decimalValue digits)
  match text with
  | [] => some 0
  | c :: rest =>
    if c = 'e' ∨ c = 'E' then
      match rest with
      | '-' :: digits => (unsigned digits).map fun n => -(n : Int)
      | '+' :: digits => (unsigned digits).map Int.ofNat
      | digits => (unsigned digits).map Int.ofNat
    else
      none

/-- Reads a binary number without its sign: digits with an optional point and an optional exponent, or a
word for what is not finite. -/
def readUnsignedDouble (negative : Bool) (text : List Char) : Option Double :=
  let word := String.ofList (text.map Char.toLower)
  if word = "inf" ∨ word = "infinity" then
    some (.ofMeaning (.infinite negative))
  else if word = "nan" then
    some (.ofMeaning .nan)
  else
    let whole := text.takeWhile isDigit
    let rest := text.dropWhile isDigit
    let (fraction, rest) :=
      match rest with
      | '.' :: rest => (rest.takeWhile isDigit, rest.dropWhile isDigit)
      | rest => ([], rest)
    if whole.isEmpty && fraction.isEmpty then none
    else
      (readExponent rest).map fun exponent =>
        scaledDouble negative (decimalValue (whole ++ fraction)) (exponent - fraction.length)

/-- Reads a binary number. -/
def readDouble (text : List Char) : Option Double :=
  match text with
  | '-' :: rest => readUnsignedDouble true rest
  | '+' :: rest => readUnsignedDouble false rest
  | text => readUnsignedDouble false text

namespace AnyNumber

/-- Reads a number with any blanks around it. -/
def read (text : List Char) : Option AnyNumber :=
  let text := trim text
  ((readWhole text).map whole).or (((Decimal.read text).map decimal).or ((readDouble text).map binary))

/-- The whole number that a number is, if it is one; binary numbers only within 128 bits. -/
def toInt? : AnyNumber → Option Int
  | .whole n => some n
  | .binary x => x.toInt?.filter inWideRange
  | .decimal d => d.toInt?

def toDouble : AnyNumber → Double
  | .whole n => .ofInt n
  | .binary x => x
  | .decimal d => d.toDouble

def toDecimal? : AnyNumber → Option Decimal
  | .whole n => Decimal.ofInt? n
  | .binary x => x.toDecimal?
  | .decimal d => some d

def toText : AnyNumber → String
  | .whole n => toString n
  | .binary x => x.toDecimalText
  | .decimal d => d.toText

end AnyNumber

end PortableSql.Number
