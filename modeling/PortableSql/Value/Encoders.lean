import PortableSql.Compression.Gzip
import PortableSql.Image.Png.Reader
import PortableSql.Image.Png.Stored

/-!
Encoders of the file formats in which documents and images are stored. A format says what a file stands for,
and leaves open which file is written, how well it is compressed above all. So storing is done by any
encoders, and what is known of them is that the readers take what they write.
-/
namespace PortableSql

open Compression

structure Encoders where
  /-- Plain data in the gzip format, if it can be written. -/
  gzip : List UInt8 → Option (List UInt8)
  /-- An image in the PNG format, if it can be written. -/
  png : Bitmap → Option (List UInt8)

namespace Encoders

/-- A file is read as what it was written for, and compressed data is known by its first two bytes. -/
structure Faithful (encoders : Encoders) : Prop where
  take_gzip {plain bytes : List UInt8} : encoders.gzip plain = some bytes → bytes.take 2 = Gzip.magic
  decompress_gzip {plain bytes : List UInt8} :
    encoders.gzip plain = some bytes → Gzip.decompress bytes = some plain
  decode_png {image : Bitmap} {bytes : List UInt8} :
    encoders.png image = some bytes → Png.decode bytes = some image

/-- Encoders that compress nothing. -/
def stored : Encoders where
  gzip plain := some (Gzip.stored plain)
  png := Png.stored

end Encoders

end PortableSql
