import PortableSql.Compression.Zlib
import PortableSql.Image.Bitmap
import PortableSql.Image.Png.Filter
import PortableSql.Image.Png.Pixel

/-!
Reading images in the PNG format: every color type, depth and interlacing. What follows the chunks with
the first pixels is not looked at.
-/
namespace PortableSql.Png

open Compression

/-- The image data of a chunk, and the number of the last chunk about frames. The data of a later frame
has its number in front and no checksum that counts. -/
def Chunk.pixels? (c : Chunk) (sequence : Option Nat) : Option (List UInt8 × Option Nat) :=
  if c.name = chunkName "IDAT" then
    if c.intact then some (c.data, sequence) else none
  else
    match sequence with
    | some n =>
      if 4 ≤ c.data.length ∧ ofBigEndian (c.data.take 4) = n + 1 then
        some (c.data.drop 4, some (n + 1))
      else
        none
    | none => none

/-- The names of the chunks that hold image data. -/
def dataNames : List (List UInt8) :=
  [chunkName "IDAT", chunkName "fdAT"]

/-- Collects the image data of consecutive chunks of one name; another chunk has to follow them. -/
def readData (name : List UInt8) : Nat → Option Nat → List UInt8 → Option (List UInt8)
  | 0, _, _ => none
  | steps + 1, sequence, bytes =>
    if bytes.length < 8 then none
    else if Chunk.nextName bytes = name then
      match Chunk.read bytes with
      | none => none
      | some (c, rest) =>
        match c.pixels? sequence with
        | none => none
        | some (front, sequence) => (readData name steps sequence rest).map fun back => front ++ back
    else
      some []

/-- Reads the chunk that describes the image. Empty ones before it say nothing. -/
def readHeader : Nat → List UInt8 → Option (Header × List UInt8)
  | 0, _ => none
  | steps + 1, bytes =>
    match Chunk.read bytes with
    | none => none
    | some (c, rest) =>
      if c.name ≠ chunkName "IHDR" ∨ ¬ c.intact then none
      else if c.data.isEmpty then readHeader steps rest
      else (Header.read c.data).map fun h => (h, rest)

/-- Reads the chunks ahead of the first image data, and that data. -/
def readChunks : Nat → Header → List UInt8 → Option (Header × List UInt8)
  | 0, _, _ => none
  | steps + 1, h, bytes =>
    if Chunk.nextName bytes ∈ dataNames then
      (readData (Chunk.nextName bytes) (steps + 1) h.sequence bytes).map fun data => (h, data)
    else
      match Chunk.read bytes with
      | none => none
      | some (c, rest) =>
        if c.name = chunkName "IEND" ∨ ¬ (c.intact ∨ c.isAncillary) then none
        else if c.data.isEmpty then readChunks steps h rest
        else
          match h.take c with
          | some h => readChunks steps h rest
          | none => none

/-- One pass over an image: every `dx`th pixel of every `dy`th row, from a first one on. -/
structure Pass where
  x : Nat
  y : Nat
  dx : Nat
  dy : Nat
  deriving Repr

/-- The passes of an interlaced image. -/
def interlacedPasses : List Pass :=
  [⟨0, 0, 8, 8⟩, ⟨4, 0, 8, 8⟩, ⟨0, 4, 4, 8⟩, ⟨2, 0, 4, 4⟩, ⟨0, 2, 2, 4⟩, ⟨1, 0, 2, 2⟩,
   ⟨0, 1, 1, 2⟩]

def Header.passes (h : Header) : List Pass :=
  if h.interlaced then interlacedPasses else [⟨0, 0, 1, 1⟩]

/-- The number of pixels from one row to the next. An interlaced frame is put into the whole image. -/
def Header.stride (h : Header) : Nat :=
  if h.interlaced then h.width else h.shown.width

/-- Puts the pixels of a pass in their places. -/
def placePass (h : Header) (p : Pass) (rows : List (List UInt8)) (canvas : Array (List UInt8))
    (width : Nat) : Array (List UInt8) :=
  rows.zipIdx.foldl
    (fun canvas (row, j) =>
      (h.pixels width (samples h.depth row)).zipIdx.foldl
        (fun canvas (pixel, i) =>
          canvas.setIfInBounds ((p.y + j * p.dy) * h.stride + p.x + i * p.dx) pixel)
        canvas)
    canvas

/-- The sides of the part of a frame that a pass covers. -/
def Header.passSize (h : Header) (p : Pass) : Nat × Nat :=
  ((h.shown.width + p.dx - 1 - p.x) / p.dx, (h.shown.height + p.dy - 1 - p.y) / p.dy)

/-- Reads the passes one after the other. -/
def readPasses (h : Header) : List Pass → Array (List UInt8) → List UInt8 →
    Option (Array (List UInt8))
  | [], canvas, _ => some canvas
  | p :: later, canvas, bytes =>
    let (width, height) := h.passSize p
    if width = 0 ∨ height = 0 then readPasses h later canvas bytes
    else
      let step := (h.pixelBits + 7) / 8
      match unfilterRows step (h.rowLength width) height #[] bytes with
      | none => none
      | some (rows, rest) => readPasses h later (placePass h p rows canvas width) rest

/-- The number of bytes that the filtered rows of all passes take. -/
def Header.dataLength (h : Header) : Nat :=
  h.passes.foldr
    (fun p n =>
      let (width, height) := h.passSize p
      (if width = 0 then 0 else height * (1 + h.rowLength width)) + n)
    0

/-- The pixels of a file: those that it begins with, row by row, and the sides of what they show. -/
def readPixels (bytes : List UInt8) : Option (Frame × List UInt8) := do
  if bytes.take 8 ≠ signature then none
  let (header, rest) ← readHeader bytes.length (bytes.drop 8)
  let (header, data) ← readChunks bytes.length header rest
  if header.color = .palette ∧ header.palette.isNone then none
  let plain ← Zlib.decompress data
  if plain.length < header.dataLength then none
  let frame := header.shown
  let blank := Array.replicate (frame.width * frame.height) header.blankPixel
  let canvas ← readPasses header header.passes blank plain
  return (frame, canvas.toList.flatten)

/-- The image of a file. -/
def decode (bytes : List UInt8) : Option Bitmap := do
  let (frame, rgba) ← readPixels bytes
  (Bitmap.new (UInt32.ofNat frame.width) (UInt32.ofNat frame.height) rgba).image?

end PortableSql.Png
