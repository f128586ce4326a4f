import PortableSql.Image.Png.Metadata

/-!
What a file says about its image ahead of the pixels: sides, depth and colors, a palette, what is
transparent, and the frame that is shown first where the image moves. Empty chunks say nothing, and a
chunk says what it says even where its checksum does not fit.
-/
namespace PortableSql.Png

open Compression

/-- What the samples of a pixel are. -/
inductive ColorType
  | grey | rgb | palette | greyAlpha | rgba
  deriving DecidableEq, Repr

namespace ColorType

/-- The number of samples of a pixel. -/
def channels : ColorType → Nat
  | .grey | .palette => 1
  | .greyAlpha => 2
  | .rgb => 3
  | .rgba => 4

/-- The numbers of bits that a sample may have. -/
def depths : ColorType → List Nat
  | .grey => [1, 2, 4, 8, 16]
  | .palette => [1, 2, 4, 8]
  | _ => [8, 16]

def ofNumber? : UInt8 → Option ColorType
  | 0 => some .grey
  | 2 => some .rgb
  | 3 => some .palette
  | 4 => some .greyAlpha
  | 6 => some .rgba
  | _ => none

end ColorType

/-- The sides of what is shown. -/
structure Frame where
  width : Nat
  height : Nat
  deriving DecidableEq, Repr

structure Header where
  width : Nat
  height : Nat
  depth : Nat
  color : ColorType
  interlaced : Bool
  palette : Option (List UInt8)
  transparency : Option (List UInt8)
  /-- The first frame of an image that moves. -/
  frame : Option Frame
  /-- The number of the last chunk about frames. -/
  sequence : Option Nat
  /-- The names of the chunks that have been taken. -/
  taken : List (List UInt8)
  deriving Repr

namespace Header

/-- Reads the first chunk of a file. -/
def read (data : List UInt8) : Option Header :=
  match data.drop 8 with
  | depth :: color :: 0 :: 0 :: interlacing :: _ => do
    let color ← ColorType.ofNumber? color
    let width := ofBigEndian (data.take 4)
    let height := ofBigEndian ((data.drop 4).take 4)
    if width ≠ 0 ∧ height ≠ 0 ∧ depth.toNat ∈ color.depths ∧ interlacing < 2 then
      some ⟨width, height, depth.toNat, color, interlacing = 1, none, none, none, none, []⟩
    else
      none
  | _ => none

/-- The sides of the pixels that the file begins with. -/
def shown (h : Header) : Frame :=
  h.frame.getD ⟨h.width, h.height⟩

/-- The number of bits of a pixel. -/
def pixelBits (h : Header) : Nat :=
  h.depth * h.color.channels

/-- The number of bytes of a row of some pixels. -/
def rowLength (h : Header) (width : Nat) : Nat :=
  (width * h.pixelBits + 7) / 8

/-- Whether data can tell what is transparent: a color, or the opacities of the palette before it. -/
def takesTransparency (h : Header) (data : List UInt8) : Bool :=
  match h.color with
  | .grey => 2 ≤ data.length
  | .rgb => 6 ≤ data.length
  | .palette => h.palette.isSome
  | .greyAlpha | .rgba => false

/-- The number that the next chunk about frames has to have. -/
def nextSequence (h : Header) : Nat :=
  match h.sequence with
  | some n => n + 1
  | none => 0

/-- Reads where a frame lies in the image, and how it replaces the one before it. -/
def takeFrame (h : Header) (data : List UInt8) : Option Header :=
  let word (i : Nat) : Nat := ofBigEndian ((data.drop (4 * i)).take 4)
  let frame : Frame := ⟨word 1, word 2⟩
  match data.drop 24 with
  | disposal :: blending :: _ =>
    if word 0 = h.nextSequence ∧ frame.width ≠ 0 ∧ frame.height ≠ 0
        ∧ word 3 + frame.width ≤ h.width ∧ word 4 + frame.height ≤ h.height
        ∧ disposal < 3 ∧ blending < 2 then
      some { h with frame := some frame, sequence := some (word 0) }
    else
      none
  | _ => none

/-- Takes what the data of a chunk says. -/
def takeData (h : Header) (c : Chunk) : Option Header :=
  if c.name = chunkName "PLTE" then
    some { h with palette := some c.data }
  else if c.name = chunkName "tRNS" then
    if h.takesTransparency c.data then some { h with transparency := some c.data } else none
  else if c.name = chunkName "fcTL" then
    h.takeFrame c.data
  else
    if c.isValid then some h else none

/-- Takes a chunk that is not empty. The first chunk may not come again, and some may come only once. -/
def take (h : Header) (c : Chunk) : Option Header :=
  if c.name = chunkName "IHDR" ∨ (c.name ∈ h.taken ∧ c.name ∈ singleNames.map chunkName) then
    none
  else
    (h.takeData c).map fun after => { after with taken := c.name :: h.taken }

end Header

end PortableSql.Png
