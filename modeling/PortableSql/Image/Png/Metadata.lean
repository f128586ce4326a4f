import PortableSql.Image.Png.Chunk
import PortableSql.Text.Utf8

/-!
What chunks say about an image besides its pixels: its scale and colors, texts, and how often it moves.
None of it changes a pixel, but data that is too short or has a number without a meaning makes the file
invalid. Data behind the part that has a meaning is not looked at.
-/
namespace PortableSql.Png

open Text

/-- The greatest length of the keyword of a text. -/
def maxKeyword : Nat := 79

/-- What stands before and behind the first zero byte. -/
def splitAtZero (data : List UInt8) : Option (List UInt8 × List UInt8) :=
  match data.dropWhile (· ≠ 0) with
  | _ :: rest => some (data.takeWhile (· ≠ 0), rest)
  | [] => none

/-- What stands behind a keyword, which is neither empty nor too long. -/
def skipKeyword (data : List UInt8) : Option (List UInt8) :=
  match splitAtZero data with
  | some (keyword, rest) =>
    if keyword.length = 0 ∨ maxKeyword < keyword.length then none else some rest
  | none => none

/-- Whether data is the text behind the keyword of an international text: whether it is compressed and
how, its language, its keyword in that language and the text. What is compressed is not read. -/
def isInternational (data : List UInt8) : Bool :=
  match data with
  | compressed :: method :: rest =>
    match splitAtZero rest with
    | none => false
    | some (language, rest) =>
      match splitAtZero rest with
      | none => false
      | some (keyword, text) =>
        (compressed = 0 && (decodeUtf8? text).isSome || compressed = 1 && method = 0)
          && language.all (· < 128) && (decodeUtf8? keyword).isSome
  | _ => false

/-- The names of chunks that may say something only once. -/
def singleNames : List String :=
  ["PLTE", "tRNS", "pHYs", "gAMA", "cHRM", "sRGB"]

/-- Whether the data of a chunk besides the pixels is valid. Chunks of other names hold anything. -/
def Chunk.isValid (c : Chunk) : Bool :=
  if c.name = chunkName "pHYs" then
    match c.data.drop 8 with
    | unit :: _ => unit < 2
    | [] => false
  else if c.name = chunkName "gAMA" then 4 ≤ c.data.length
  else if c.name = chunkName "cHRM" then 32 ≤ c.data.length
  else if c.name = chunkName "sRGB" then
    match c.data with
    | intent :: _ => intent < 4
    | [] => false
  else if c.name = chunkName "acTL" then 8 ≤ c.data.length
  else if c.name = chunkName "tEXt" then (skipKeyword c.data).isSome
  else if c.name = chunkName "zTXt" then
    match skipKeyword c.data with
    | some (method :: _) => method = 0
    | _ => false
  else if c.name = chunkName "iTXt" then ((skipKeyword c.data).map isInternational).getD false
  else true

end PortableSql.Png
