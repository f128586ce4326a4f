/-!
Colors of 32 bits: opacity, red, green and blue, packed into a signed word with the opacity on top.
-/
namespace PortableSql

structure Color where
  a : UInt8
  r : UInt8
  g : UInt8
  b : UInt8
  deriving DecidableEq, Repr

namespace Color

/-- The four channels as one word, the opacity in its highest byte. -/
def packed (c : Color) : UInt32 :=
  UInt32.ofNat (((c.a.toNat * 256 + c.r.toNat) * 256 + c.g.toNat) * 256 + c.b.toNat)

/-- The packed channels as a signed number. -/
def toArgb (c : Color) : Int32 :=
  c.packed.toInt32

/-- The color whose packed channels are the lowest 32 bits of a number. -/
def ofInt (n : Int) : Color :=
  let word := (n % 4294967296).toNat
  ⟨UInt8.ofNat (word / 16777216), UInt8.ofNat (word / 65536), UInt8.ofNat (word / 256),
    UInt8.ofNat word⟩

def ofArgb (packed : Int32) : Color :=
  ofInt packed.toInt

end Color

end PortableSql
