import PortableSql.Compression.Inflate

/-!
Data in the gzip format: a header, deflated data, and a trailer with a checksum and the length. Reading
takes the first member and does not look at what follows it.
-/
namespace PortableSql.Compression.Gzip

/-- The two bytes that every gzip file begins with. -/
def magic : List UInt8 := [0x1f, 0x8b]

/-- The method number of deflated data. -/
def deflated : UInt8 := 8

/-- The greatest length of a text in the header. -/
def maxText : Nat := 65535

/-- The bytes behind a text that ends with a zero byte. -/
def skipText (bytes : List UInt8) : Option (List UInt8) :=
  match bytes.dropWhile (· ≠ 0) with
  | _ :: rest => if (bytes.takeWhile (· ≠ 0)).length ≤ maxText then some rest else none
  | [] => none

/-- The bytes behind an optional part of the header. -/
def skipIf (present : Bool) (skip : List UInt8 → Option (List UInt8)) (bytes : List UInt8) :
    Option (List UInt8) :=
  if present then skip bytes else some bytes

/-- The bytes behind an extra field with its length. -/
def skipExtra (bytes : List UInt8) : Option (List UInt8) :=
  match bytes with
  | a :: b :: rest =>
    let length := ofLittleEndian [a, b]
    if length ≤ rest.length then some (rest.drop length) else none
  | _ => none

/-- The bytes behind the checksum of the header, which has to fit to the header. -/
def skipHeaderCheck (whole bytes : List UInt8) : Option (List UInt8) :=
  match bytes with
  | a :: b :: rest =>
    let header := whole.take (whole.length - bytes.length)
    if ofLittleEndian [a, b] = (crc32 header).toNat % 65536 then some rest else none
  | _ => none

/-- The bytes behind the header. -/
def skipHeader (bytes : List UInt8) : Option (List UInt8) :=
  match bytes with
  | 0x1f :: 0x8b :: method :: flags :: _ :: _ :: _ :: _ :: _ :: _ :: rest =>
    if method = deflated ∧ flags < 32 then do
      let rest ← skipIf (flags.toNat.testBit 2) skipExtra rest
      let rest ← skipIf (flags.toNat.testBit 3) skipText rest
      let rest ← skipIf (flags.toNat.testBit 4) skipText rest
      skipIf (flags.toNat.testBit 1) (skipHeaderCheck bytes) rest
    else
      none
  | _ => none

/-- The plain data of the first member. -/
def decompress (bytes : List UInt8) : Option (List UInt8) := do
  let body ← skipHeader bytes
  let (plain, rest) ← inflate .lenient body
  let check := ofLittleEndian (rest.take 4)
  let length := ofLittleEndian ((rest.drop 4).take 4)
  if 8 ≤ rest.length ∧ check = (crc32 plain).toNat ∧ length = plain.length % 4294967296 then
    some plain
  else
    none

end PortableSql.Compression.Gzip
