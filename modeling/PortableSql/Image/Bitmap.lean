/-!
Images of 8-bit RGBA pixels, row by row from the top. An image has four bytes for each of its pixels. Their
number is counted in words of 64 bits; where no word holds it, the program ends.
-/
namespace PortableSql

namespace Bitmap

/-- The number of words of 64 bits. -/
def wordCount : Nat := 18446744073709551616

/-- The product of two words, if it is one. -/
def mulWord? (a b : Nat) : Option Nat :=
  if a * b < wordCount then some (a * b) else none

/-- The size of the buffer for an image, if it is a word. -/
def bufferSize? (width height : UInt32) : Option Nat :=
  (mulWord? width.toNat height.toNat).bind fun pixels => mulWord? pixels 4

end Bitmap

/-- An image; its sides are counted in pixels. -/
structure Bitmap where
  width : UInt32
  height : UInt32
  /-- Four bytes for each pixel: red, green, blue and opacity. -/
  rgba : List UInt8
  sized : Bitmap.bufferSize? width height = some rgba.length
  deriving DecidableEq

/-- A buffer whose size does not fit to the sides of an image. -/
structure BitmapSizeError where
  width : UInt32
  height : UInt32
  expected : Nat
  got : Nat
  deriving DecidableEq, Repr

def BitmapSizeError.message (e : BitmapSizeError) : String :=
  s!"pixel buffer holds {e.got} bytes, expected {e.expected} for {e.width}x{e.height} RGBA"

namespace Bitmap

/-- What comes of a buffer that is to be an image with certain sides. -/
inductive Outcome
  | made (image : Bitmap)
  | refused (e : BitmapSizeError)
  /-- The program ends, as no word holds the size that the sides ask for. -/
  | aborted
  deriving DecidableEq

/-- The image of an outcome. -/
def Outcome.image? : Outcome → Option Bitmap
  | .made image => some image
  | _ => none

/-- The image with these sides and pixels, if the buffer has the size for them. -/
def new (width height : UInt32) (rgba : List UInt8) : Outcome :=
  match sized : bufferSize? width height with
  | none => .aborted
  | some size =>
    if fits : size = rgba.length then
      .made ⟨width, height, rgba, sized.trans (congrArg some fits)⟩
    else
      .refused ⟨width, height, size, rgba.length⟩

theorem bufferSize?_eq (width height : UInt32) :
    bufferSize? width height = mulWord? (width.toNat * height.toNat) 4 := by
  have pixels : width.toNat * height.toNat < wordCount :=
    Nat.mul_lt_mul'' width.toNat_lt height.toNat_lt
  rw [bufferSize?, mulWord?, if_pos pixels, Option.bind_some]

/-- An image holds its pixels. -/
theorem rgba_length (image : Bitmap) :
    image.rgba.length = image.width.toNat * image.height.toNat * 4 := by
  have sized := image.sized
  rw [bufferSize?_eq, mulWord?] at sized
  split at sized
  · exact (Option.some.inj sized).symm
  · cases sized

/-- An image is made of its sides and its pixels. -/
theorem new_self (image : Bitmap) : new image.width image.height image.rgba = .made image := by
  unfold new
  split
  · rename_i overflows
    cases overflows.symm.trans image.sized
  · rename_i size sized
    exact dif_pos (Option.some.inj (sized.symm.trans image.sized))

end Bitmap

end PortableSql
