import PortableSql.Compression.Inflate

/-!
Data in the zlib format: two bytes of header, deflated data and a checksum of four bytes. Reading asks for
the checksum but does not compare it.
-/
namespace PortableSql.Compression.Zlib

/-- Whether two bytes are a header without a preset dictionary. -/
def isHeader (a b : UInt8) : Bool :=
  a.toNat % 16 == 8 && a.toNat / 16 ≤ 7 && (256 * a.toNat + b.toNat) % 31 == 0
    && !b.toNat.testBit 5

/-- The plain data. -/
def decompress (bytes : List UInt8) : Option (List UInt8) :=
  match bytes with
  | a :: b :: body =>
    if isHeader a b then
      match inflate .strict body with
      | some (plain, rest) => if 4 ≤ rest.length then some plain else none
      | none => none
    else
      none
  | _ => none

end PortableSql.Compression.Zlib
