import PortableSql.Compression.Gzip
import PortableSql.Compression.Zlib

/-!
Data in stored blocks only. It takes a little more room than it does as it is, and every reader takes it.
-/
namespace PortableSql.Compression

/-- The greatest length of a stored block. -/
def storedLimit : Nat := 65535

/-- A stored block. -/
def storedBlock (last : Bool) (bytes : List UInt8) : List UInt8 :=
  (if last then 1 else 0) :: (littleEndian 2 bytes.length
    ++ littleEndian 2 (storedLimit - bytes.length) ++ bytes)

/-- Deflated bytes in stored blocks. -/
def storedBlocks (bytes : List UInt8) : List UInt8 :=
  if bytes.length ≤ storedLimit then
    storedBlock true bytes
  else
    storedBlock false (bytes.take storedLimit) ++ storedBlocks (bytes.drop storedLimit)
termination_by bytes.length
decreasing_by simp only [storedLimit, List.length_drop] at *; omega

/-- The plain data in gzip format, in stored blocks. -/
def Gzip.stored (bytes : List UInt8) : List UInt8 :=
  magic ++ deflated :: 0 :: 0 :: 0 :: 0 :: 0 :: 0 :: 255 :: (storedBlocks bytes
    ++ littleEndian 4 (crc32 bytes).toNat ++ littleEndian 4 bytes.length)

/-- The plain data in zlib format, in stored blocks. -/
def Zlib.stored (bytes : List UInt8) : List UInt8 :=
  0x78 :: 0x01 :: (storedBlocks bytes ++ bigEndian 4 (adler32 bytes).toNat)

end PortableSql.Compression
