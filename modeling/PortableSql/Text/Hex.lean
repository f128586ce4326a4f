import PortableSql.Text.Letters

/-!
Hexadecimal digits: two for a byte, the more significant first. They are written in small letters and
read in either case.
-/
namespace PortableSql.Text

/-- The hexadecimal digit of a number below 16, in small letters. -/
def hexDigit (n : Nat) : Char :=
  if n < 10 then Char.ofNat ('0'.toNat + n) else Char.ofNat ('a'.toNat + (n - 10))

/-- The two hexadecimal digits of a byte. -/
def hexByte (b : UInt8) : List Char :=
  [hexDigit (b.toNat / 16), hexDigit (b.toNat % 16)]

/-- The value of a hexadecimal digit of either case. -/
def hexValue? (c : Char) : Option Nat :=
  if isDigit c then some (c.toNat - '0'.toNat)
  else if 'a' ≤ c ∧ c ≤ 'f' then some (c.toNat - 'a'.toNat + 10)
  else if 'A' ≤ c ∧ c ≤ 'F' then some (c.toNat - 'A'.toNat + 10)
  else none

/-- The bytes that pairs of hexadecimal digits stand for. -/
def readHex : List Char → Option (List UInt8)
  | [] => some []
  | a :: b :: rest => do
    let high ← hexValue? a
    let low ← hexValue? b
    let bytes ← readHex rest
    return UInt8.ofNat (16 * high + low) :: bytes
  | [_] => none

/-- The hexadecimal digits of bytes. -/
def hexText (bytes : List UInt8) : String :=
  String.ofList (bytes.flatMap hexByte)

end PortableSql.Text
