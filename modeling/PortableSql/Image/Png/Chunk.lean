import PortableSql.Compression.Checksum

/-!
The chunks that a PNG file consists of, behind its signature: a length, a name of four letters, data and
a checksum of name and data.
-/
namespace PortableSql.Png

open Compression

/-- The bytes that every file begins with. -/
def signature : List UInt8 := [0x89, 0x50, 0x4e, 0x47, 0x0d, 0x0a, 0x1a, 0x0a]

/-- The four bytes of a chunk's name. -/
def chunkName (name : String) : List UInt8 :=
  name.toList.map fun c => UInt8.ofNat c.toNat

/-- A chunk with its length and checksum. -/
def chunk (name : String) (data : List UInt8) : List UInt8 :=
  let body := chunkName name ++ data
  bigEndian 4 data.length ++ body ++ bigEndian 4 (crc32 body).toNat

/-- One chunk of a file. -/
structure Chunk where
  name : List UInt8
  data : List UInt8
  /-- Whether the checksum fits. -/
  intact : Bool
  deriving Repr

namespace Chunk

/-- The name of the chunk that bytes begin with. -/
def nextName (bytes : List UInt8) : List UInt8 :=
  (bytes.drop 4).take 4

/-- Reads a chunk. -/
def read (bytes : List UInt8) : Option (Chunk × List UInt8) :=
  let length := ofBigEndian (bytes.take 4)
  let body := (bytes.drop 4).take (length + 4)
  let check := ((bytes.drop 4).drop (length + 4)).take 4
  if check.length = 4 then
    some (⟨body.take 4, body.drop 4, ofBigEndian check = (crc32 body).toNat⟩,
      bytes.drop (length + 12))
  else
    none

/-- Whether an image can be shown without the chunk: its name begins with a small letter. -/
def isAncillary (c : Chunk) : Bool :=
  match c.name with
  | first :: _ => first.toNat.testBit 5
  | [] => false

end Chunk

end PortableSql.Png
