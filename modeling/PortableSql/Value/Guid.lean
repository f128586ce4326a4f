import PortableSql.Text.Hex

/-!
Identifiers of 128 bits: sixteen bytes, the most significant first. As text they are hexadecimal digits
in five groups; the mixed-endian layout turns the bytes of the first three groups around.
-/
namespace PortableSql

open Text

structure Guid where
  bytes : List UInt8
  size : bytes.length = 16
  deriving DecidableEq

namespace Guid

/-- The identifier with these bytes, if there are sixteen. -/
def ofBytes? (bytes : List UInt8) : Option Guid :=
  if size : bytes.length = 16 then some ⟨bytes, size⟩ else none

/-- The identifier whose bits are all zero. -/
def nil : Guid :=
  ⟨List.replicate 16 0, by simp⟩

def isNil (id : Guid) : Bool :=
  id = nil

/-- Turns around the bytes 0 to 3, 4 and 5, and 6 and 7. -/
def mixEndian (bytes : List UInt8) : List UInt8 :=
  (bytes.take 4).reverse ++ ((bytes.drop 4).take 2).reverse ++ ((bytes.drop 6).take 2).reverse
    ++ bytes.drop 8

/-- The bytes in the mixed-endian layout. -/
def toMixedEndian (id : Guid) : List UInt8 :=
  mixEndian id.bytes

/-- The identifier with these bytes in the mixed-endian layout, if there are sixteen. -/
def ofMixedEndian? (bytes : List UInt8) : Option Guid :=
  ofBytes? (mixEndian bytes)

/-- The digits in groups of 8, 4, 4, 4 and 12, with hyphens in between. -/
def toText (id : Guid) : String :=
  let digits := id.bytes.flatMap hexByte
  String.ofList
    (digits.take 8 ++ '-' :: (digits.drop 8).take 4 ++ '-' :: (digits.drop 12).take 4
      ++ '-' :: (digits.drop 16).take 4 ++ '-' :: digits.drop 20)

/-- Reads digits in groups of 8, 4, 4, 4 and 12, with hyphens in between. -/
def readGroups (text : List Char) : Option Guid :=
  let groups := [text.take 8, (text.drop 9).take 4, (text.drop 14).take 4, (text.drop 19).take 4,
    text.drop 24]
  let hyphens := [text[8]?, text[13]?, text[18]?, text[23]?]
  if text.length = 36 ∧ hyphens.all (· = some '-') then
    (readHex groups.flatten).bind ofBytes?
  else
    none

/-- What may stand before the grouped form; its case does not count. -/
def urn : List Char := "urn:uuid:".toList

/-- Reads an identifier: 32 digits, or the grouped form, bare, in braces or behind `urn:uuid:`. -/
def read (text : List Char) : Option Guid :=
  match text.length with
  | 32 => (readHex text).bind ofBytes?
  | 36 => readGroups text
  | 38 =>
    if text.head? = some '\x7b' ∧ text.getLast? = some '\x7d' then readGroups (text.drop 1).dropLast
    else none
  | 45 => if (text.take 9).map Char.toLower = urn then readGroups (text.drop 9) else none
  | _ => none

end Guid

end PortableSql
