import PortableSql.Compression.Stored
import PortableSql.Image.Bitmap
import PortableSql.Image.Png.Chunk

/-!
Files in the PNG format that hold an image as it is: 8-bit RGBA, not interlaced, with rows that are not
filtered and data in stored blocks.
-/
namespace PortableSql.Png

open Compression

/-- The rows of an image, each behind the number of the filter that keeps it as it is. -/
def unfilteredRows (rowLength : Nat) : Nat → List UInt8 → List UInt8
  | 0, _ => []
  | rows + 1, bytes =>
    0 :: (bytes.take rowLength ++ unfilteredRows rowLength rows (bytes.drop rowLength))

/-- The greatest length of a chunk of image data. -/
def dataLimit : Nat := 2147483647

/-- Image data in chunks, all but the last one as long as they may be. -/
def dataChunks (data : List UInt8) : List UInt8 :=
  if data.length ≤ dataLimit then
    chunk "IDAT" data
  else
    chunk "IDAT" (data.take dataLimit) ++ dataChunks (data.drop dataLimit)
termination_by data.length
decreasing_by simp only [dataLimit, List.length_drop] at *; omega

/-- The file of an image that has pixels. -/
def stored (image : Bitmap) : Option (List UInt8) :=
  let width := image.width.toNat
  let height := image.height.toNat
  if width = 0 ∨ height = 0 then none
  else
    let header := bigEndian 4 width ++ bigEndian 4 height ++ [8, 6, 0, 0, 0]
    let rows := unfilteredRows (4 * width) height image.rgba
    some (signature ++ chunk "IHDR" header ++ dataChunks (Zlib.stored rows) ++ chunk "IEND" [])

end PortableSql.Png
