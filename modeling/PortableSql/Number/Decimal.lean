import PortableSql.Number.Shortest
import PortableSql.Text.Letters

/-!
Decimal numbers of fixed precision: a mantissa below 2^96 with a sign, divided by a power of ten up to
10^28. The scale is kept, so `1.50` and `1.5` are equal numbers that print differently.
-/
namespace PortableSql.Number

open Text

/-- Mantissas are below this bound, 2^96. -/
def mantissaBound : Nat := 79228162514264337593543950336

/-- The greatest scale. -/
def maxScale : Nat := 28

structure Decimal where
  negative : Bool
  mantissa : Nat
  scale : Nat
  mantissa_lt : mantissa < mantissaBound
  scale_le : scale ≤ maxScale
  deriving DecidableEq, Repr

namespace Decimal

def zero : Decimal :=
  ⟨false, 0, 0, by decide, by decide⟩

/-- The decimal with these parts, if they are in range. -/
def of? (negative : Bool) (mantissa scale : Nat) : Option Decimal :=
  if h : mantissa < mantissaBound ∧ scale ≤ maxScale then
    some ⟨negative, mantissa, scale, h.1, h.2⟩
  else
    none

/-- A number that was read or computed; zero has no sign there. -/
def unsignedZero? (negative : Bool) (mantissa scale : Nat) : Option Decimal :=
  of? (negative && mantissa != 0) mantissa scale

/-- The decimal that is a whole number, if it is small enough. -/
def ofInt? (n : Int) : Option Decimal :=
  of? (n < 0) n.natAbs 0

/-- The whole number that a decimal is, if it is one. -/
def toInt? (d : Decimal) : Option Int :=
  if d.mantissa % tenPow d.scale = 0 then
    let n : Int := (d.mantissa / tenPow d.scale : Nat)
    some (if d.negative then -n else n)
  else
    none

/-- Whether two decimals are the same number. -/
def same (x y : Decimal) : Bool :=
  x.mantissa * tenPow y.scale == y.mantissa * tenPow x.scale &&
    (x.negative == y.negative || x.mantissa == 0)

/-- All digits of the scale are written. -/
def toText (d : Decimal) : String :=
  let digits := (Nat.repr d.mantissa).toList
  let padded := List.replicate (d.scale + 1 - digits.length) '0' ++ digits
  let whole := padded.length - d.scale
  let fraction := if d.scale = 0 then [] else '.' :: padded.drop whole
  String.ofList ((if d.negative then ['-'] else []) ++ padded.take whole ++ fraction)

end Decimal

/-- What has been read of a decimal: its mantissa, and the number of digits behind the point where one
was read. -/
structure DecimalReading where
  mantissa : Nat
  places : Option Nat
  deriving DecidableEq, Repr

namespace DecimalReading

def scale (r : DecimalReading) : Nat :=
  r.places.getD 0

/-- The reading with one more digit. -/
def push (r : DecimalReading) (digit : Nat) : DecimalReading :=
  ⟨10 * r.mantissa + digit, r.places.map (· + 1)⟩

/-- Rounds by the first digit that is not kept. A mantissa that becomes too large loses a place. -/
def round (r : DecimalReading) (digit : Nat) : Option (Nat × Nat) :=
  if digit < 5 then some (r.mantissa, r.scale)
  else if r.mantissa + 1 < mantissaBound then some (r.mantissa + 1, r.scale)
  else if r.scale = 0 then none
  else some ((r.mantissa + 5) / 10, r.scale - 1)

end DecimalReading

/-- Reads the digits of a decimal, with at most one point among them and underscores behind the first
digit. Behind the point, the digit that has no room left rounds the number and ends it; before the point
it is an error. Where all places are taken, an underscore ends the number too, as a zero would. -/
def readDecimalDigits (any : Bool) (r : DecimalReading) : List Char → Option (Nat × Nat)
  | [] => if any then some (r.mantissa, r.scale) else none
  | c :: rest =>
    if isDigit c then
      let next := r.push (digitValue c)
      if next.mantissa < mantissaBound ∧ next.scale ≤ maxScale then
        readDecimalDigits true next rest
      else if r.places.isSome then
        r.round (digitValue c)
      else
        none
    else if c = '.' ∧ r.places.isNone then
      readDecimalDigits any ⟨r.mantissa, some 0⟩ rest
    else if c = '_' ∧ any then
      if r.scale = maxScale then r.round 0 else readDecimalDigits any r rest
    else
      none

/-- Reads a decimal with an optional sign. -/
def Decimal.read (text : List Char) : Option Decimal :=
  let unsigned (negative : Bool) (text : List Char) : Option Decimal :=
    (readDecimalDigits false ⟨0, none⟩ text).bind fun (mantissa, scale) =>
      unsignedZero? negative mantissa scale
  match text with
  | '-' :: rest => unsigned true rest
  | '+' :: rest => unsigned false rest
  | text => unsigned false text

end PortableSql.Number
