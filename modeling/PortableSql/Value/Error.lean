import PortableSql.Value.Basic

/-!
Why a value cannot be stored or loaded.
-/
namespace PortableSql

open Number

/-- Which way a value goes. -/
inductive Direction
  | toDatabase | fromDatabase
  deriving DecidableEq, Repr

def Direction.name : Direction → String
  | .toDatabase => "to database"
  | .fromDatabase => "from database"

/-- What stands in the way of a conversion. -/
inductive ConversionFault
  /-- The value has a shape that no rule of the type takes. -/
  | unexpected (type : FieldType) (got : String)
  | notIntegral (n : AnyNumber) (type : FieldType)
  | outOfRange (n : Int) (type : FieldType)
  | notDecimal (n : AnyNumber)
  | invalidGuid (text : String)
  | guidSize (got : Nat)
  | tooWide (length width : Nat)
  | notBoolean (text : String)
  | notDate (text : String)
  | notTime (text : String)
  | notTimestamp (text : String)
  | notColor (n : Int)
  | links (e : LinkError)
  | imageEncoding
  | imageDecoding
  | compression
  | decompression
  | invalidDocument (name : String)
  deriving DecidableEq, Repr

def ConversionFault.message : ConversionFault → String
  | .unexpected type got => s!"expected a {type.name} value, got {got}"
  | .notIntegral n type => s!"{n.toText} is not an integral {type.name}"
  | .outOfRange n type => s!"{n} is out of range for {type.name}"
  | .notDecimal n => s!"{n.toText} is not representable as decimal"
  | .invalidGuid text => s!"invalid uuid '{text}'"
  | .guidSize got => s!"expected 16 bytes for a guid, got {got}"
  | .tooWide length width => s!"string of {length} characters exceeds fixed width {width}"
  | .notBoolean text => s!"'{text}' is not a boolean"
  | .notDate text => s!"'{text}' is not a date"
  | .notTime text => s!"'{text}' is not a time"
  | .notTimestamp text => s!"'{text}' is not a timestamp"
  | .notColor n => s!"{n} is not a packed ARGB color"
  | .links e => e.message
  | .imageEncoding => "PNG encoding failed"
  | .imageDecoding => "PNG decoding failed"
  | .compression => "gzip failed"
  | .decompression => "gunzip failed"
  | .invalidDocument name => s!"invalid JSON for {name}"

/-- A fault and the conversion that it is in. -/
structure ConversionError where
  direction : Direction
  declared : FieldType
  stored : StoredType
  fault : ConversionFault
  deriving DecidableEq, Repr

def ConversionError.message (e : ConversionError) : String :=
  let place := s!"{e.direction.name}, declared {e.declared.name}, stored {e.stored.name}"
  s!"Value translation failed ({place}): {e.fault.message}"

end PortableSql
