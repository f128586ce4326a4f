import PortableSql.Number.Power

/-!
The checksums of compressed data: CRC-32 and Adler-32.
-/
namespace PortableSql.Compression

open Number (twoPow)

/-- One step of CRC-32 for one bit. -/
def crcBit (crc : UInt32) : UInt32 :=
  if crc &&& 1 = 1 then (crc >>> 1) ^^^ 0xEDB88320 else crc >>> 1

/-- The steps of CRC-32 for one byte. -/
def crcByte (crc : UInt32) (b : UInt8) : UInt32 :=
  (List.range 8).foldl (fun crc _ => crcBit crc) (crc ^^^ b.toUInt32)

/-- The CRC-32 of bytes. -/
def crc32 (bytes : List UInt8) : UInt32 :=
  bytes.foldl crcByte 0xFFFFFFFF ^^^ 0xFFFFFFFF

/-- The sums of Adler-32 are taken modulo the greatest prime below 2^16. -/
def adlerModulus : Nat := 65521

/-- The Adler-32 of bytes. -/
def adler32 (bytes : List UInt8) : UInt32 :=
  let (a, b) := bytes.foldl
    (fun (a, b) byte =>
      let a := (a + byte.toNat) % adlerModulus
      (a, (b + a) % adlerModulus))
    (1, 0)
  UInt32.ofNat (65536 * b + a)

/-- The bytes of a word, the least significant first. -/
def littleEndian (count n : Nat) : List UInt8 :=
  (List.range count).map fun i => UInt8.ofNat (n / twoPow (8 * i))

/-- The bytes of a word, the most significant first. -/
def bigEndian (count n : Nat) : List UInt8 :=
  (littleEndian count n).reverse

/-- The word that bytes make up, the least significant first. -/
def ofLittleEndian (bytes : List UInt8) : Nat :=
  bytes.foldr (fun b n => 256 * n + b.toNat) 0

/-- The word that bytes make up, the most significant first. -/
def ofBigEndian (bytes : List UInt8) : Nat :=
  ofLittleEndian bytes.reverse

end PortableSql.Compression
