/-!
How an engine stores identifiers and text, where engines differ.
-/
namespace PortableSql

/-- How 128-bit identifiers are stored. -/
inductive GuidStorage
  /-- In the engine's own type. -/
  | native
  /-- As 36 characters with hyphens. -/
  | text
  /-- As 16 bytes, the most significant first. -/
  | bytes
  /-- As 16 bytes, the first three groups with the least significant first. -/
  | mixedEndianBytes
  deriving DecidableEq, Repr

namespace GuidStorage

def all : List GuidStorage :=
  [.native, .text, .bytes, .mixedEndianBytes]

def name : GuidStorage → String
  | .native => "native"
  | .text => "text"
  | .bytes => "bytes"
  | .mixedEndianBytes => "mixed_endian_bytes"

/-- The storage that has exactly this name. -/
def ofName? (text : String) : Option GuidStorage :=
  all.find? fun storage => storage.name = text

end GuidStorage

/-- How wide text may be. -/
inductive TextPolicy
  | unbounded
  /-- Columns of a fixed number of characters, filled up with blanks. -/
  | fixedWidth (width : Nat)
  deriving DecidableEq, Repr

/-- How one engine stores values, where engines differ. -/
structure Codec where
  guidStorage : GuidStorage
  textPolicy : TextPolicy
  deriving DecidableEq, Repr

end PortableSql
