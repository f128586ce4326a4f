/-!
Bit arrays: whole bytes, the bits of each from the least significant on. An array made of single bits is
filled up with zeros to whole bytes.
-/
namespace PortableSql

structure BitArray where
  /-- The number of bits. -/
  length : Nat
  bytes : List UInt8
  length_eq : length = 8 * bytes.length
  deriving DecidableEq, Repr

namespace BitArray

/-- The byte of eight bits, the least significant first; missing bits are zero. -/
def packByte (bits : List Bool) : UInt8 :=
  UInt8.ofNat ((bits.take 8).foldr (fun bit n => 2 * n + (if bit then 1 else 0)) 0)

/-- Packs bits into bytes, the last one filled up with zeros. -/
def packBits (bits : List Bool) : List UInt8 :=
  match bits with
  | [] => []
  | bit :: rest => packByte (bit :: rest) :: packBits (rest.drop 7)
termination_by bits.length
decreasing_by simp only [List.length_cons, List.length_drop]; omega

/-- The array of all the bits that bytes hold. -/
def ofBytes (bytes : List UInt8) : BitArray where
  length := 8 * bytes.length
  bytes := bytes
  length_eq := rfl

/-- The bytes of an array are all of it. -/
@[simp] theorem ofBytes_bytes (array : BitArray) : ofBytes array.bytes = array := by
  obtain ⟨length, bytes, rfl⟩ := array
  rfl

def ofBools (bits : List Bool) : BitArray :=
  ofBytes (packBits bits)

def isEmpty (array : BitArray) : Bool :=
  array.length == 0

theorem place_lt {array : BitArray} {index : Nat} (inside : index < array.length) :
    index / 8 < array.bytes.length := by
  rw [array.length_eq] at inside
  omega

/-- The bit at an index, if the array has it. -/
def get? (array : BitArray) (index : Nat) : Option Bool :=
  if inside : index < array.length then
    have place := place_lt inside
    some (array.bytes[index / 8].toNat.testBit (index % 8))
  else
    none

end BitArray

end PortableSql
