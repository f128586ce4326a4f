import PortableSql.Image.Png.Header
import PortableSql.Number.Power

/-!
From the samples of a row to pixels of 8-bit RGBA: shallow greys are scaled to the range of a byte, deep
samples keep their high byte, and a transparent color or palette entry becomes a pixel without opacity.
-/
namespace PortableSql.Png

open Number (twoPow)

/-- The parts of a byte of some bits each, the most significant first. -/
def splitByte (depth : Nat) (b : UInt8) : List Nat :=
  (List.range (8 / depth)).map fun i => b.toNat / twoPow (8 - depth * (i + 1)) % twoPow depth

/-- The samples of a row of 16 bits. -/
def wideSamples : List UInt8 → List Nat
  | a :: b :: rest => (256 * a.toNat + b.toNat) :: wideSamples rest
  | _ => []

/-- The samples of a row. -/
def samples (depth : Nat) (row : List UInt8) : List Nat :=
  if depth = 16 then wideSamples row
  else if depth = 8 then row.map UInt8.toNat
  else row.flatMap (splitByte depth)

/-- A sample in the range of a byte. -/
def toByte (depth sample : Nat) : UInt8 :=
  if depth = 16 then UInt8.ofNat (sample / 256)
  else if depth = 8 then UInt8.ofNat sample
  else UInt8.ofNat (sample * 255 / (twoPow depth - 1))

namespace Header

/-- The samples of the color that is transparent. Deep samples have to be all there is in the data. -/
def transparentColor (h : Header) : Option (List Nat) :=
  match h.transparency with
  | none => none
  | some data =>
    if h.depth ≠ 16 then some (((wideSamples data).take h.color.channels).map (· % 256))
    else if data.length = 2 * h.color.channels then some (wideSamples data)
    else none

/-- The opacity of a pixel by the transparent color. -/
def opacity (h : Header) (pixel : List Nat) : UInt8 :=
  if h.transparentColor = some pixel then 0 else 255

/-- The number of colors of the palette. -/
def paletteSize (h : Header) : Nat :=
  (h.palette.getD []).length / 3

/-- The opacities of the colors of the palette, as far as they are given. More opacities than colors say
nothing. -/
def paletteOpacities (h : Header) : List UInt8 :=
  let data := h.transparency.getD []
  if data.length ≤ h.paletteSize then data else []

/-- The entry of a palette. Entries that are missing are black. -/
def paletteColor (h : Header) (index : Nat) : List UInt8 :=
  let entry := ((h.palette.getD []).drop (3 * index)).take 3
  let color := if entry.length = 3 then entry else [0, 0, 0]
  color ++ [(h.paletteOpacities[index]?).getD 255]

/-- The four bytes of a pixel with these samples. -/
def pixel (h : Header) (pixel : List Nat) : List UInt8 :=
  match h.color, pixel with
  | .grey, [v] => let v8 := toByte h.depth v; [v8, v8, v8, h.opacity pixel]
  | .greyAlpha, [v, a] => let v8 := toByte h.depth v; [v8, v8, v8, toByte h.depth a]
  | .rgb, [r, g, b] => [toByte h.depth r, toByte h.depth g, toByte h.depth b, h.opacity pixel]
  | .rgba, [r, g, b, a] =>
    [toByte h.depth r, toByte h.depth g, toByte h.depth b, toByte h.depth a]
  | .palette, [index] => h.paletteColor index
  | _, _ => [0, 0, 0, 0]

/-- The pixels of a row. -/
def pixels (h : Header) : Nat → List Nat → List (List UInt8)
  | 0, _ => []
  | width + 1, row =>
    h.pixel (row.take h.color.channels) :: h.pixels width (row.drop h.color.channels)

/-- A pixel that no row has reached: without opacity where pixels have one, and else black. -/
def blankPixel (h : Header) : List UInt8 :=
  let solid := h.transparency.isNone && h.color ≠ .greyAlpha && h.color ≠ .rgba
  [0, 0, 0, if solid then 255 else 0]

end Header

end PortableSql.Png
