import PortableSql.Calendar.Basic
import PortableSql.Image.Bitmap
import PortableSql.Json.Basic
import PortableSql.Number.Basic
import PortableSql.Value.Bits
import PortableSql.Value.Color
import PortableSql.Value.Guid
import PortableSql.Value.Links

/-!
Values on both sides of the database: the values of an application, the shapes in which a database driver
takes and gives them, and the types of fields that lead from the one to the other.
-/
namespace PortableSql

open Calendar Number

/-- The declared type of a field. -/
inductive FieldType
  | enum (name : String)
  | guid | bool | u8 | i16 | i32 | i64 | f32 | f64 | decimal
  | date | time | dateTime | color | typeDescriptor | string | bytes
  | image | svgImage | linkCollection | bitArray
  /-- Any other type, stored as a document. -/
  | object (name : String)
  deriving DecidableEq, Repr

namespace FieldType

/-- The name of a type in messages. -/
def name : FieldType → String
  | .enum name => s!"enum<{name}>"
  | .object name => s!"object<{name}>"
  | .guid => "guid"
  | .bool => "bool"
  | .u8 => "u8"
  | .i16 => "i16"
  | .i32 => "i32"
  | .i64 => "i64"
  | .f32 => "f32"
  | .f64 => "f64"
  | .decimal => "decimal"
  | .date => "date"
  | .time => "time"
  | .dateTime => "datetime"
  | .color => "color"
  | .typeDescriptor => "type_descriptor"
  | .string => "string"
  | .bytes => "bytes"
  | .image => "image"
  | .svgImage => "svg_image"
  | .linkCollection => "link_collection"
  | .bitArray => "bit_array"

/-- Whether values of a type are numbers; a missing one is zero then. -/
def isNumeric : FieldType → Bool
  | .u8 | .i16 | .i32 | .i64 | .f32 | .f64 | .decimal => true
  | _ => false

end FieldType

/-- A value of an application. -/
inductive Value
  | null
  | bool (b : Bool)
  | u8 (n : UInt8)
  | i16 (n : Int16)
  | i32 (n : Int32)
  | i64 (n : Int64)
  | f32 (x : Single)
  | f64 (x : Double)
  | decimal (d : Decimal)
  /-- The number of a case of an enumeration. -/
  | enum (n : Int32)
  | guid (id : Guid)
  | date (d : Date)
  | time (t : Time)
  | dateTime (t : DateTime)
  | color (c : Color)
  /-- The full name of a type. -/
  | typeDescriptor (name : String)
  | string (s : String)
  | bytes (bytes : List UInt8)
  | image (bitmap : Bitmap)
  | svg (markup : String)
  | links (links : LinkCollection)
  | bits (bits : BitArray)
  | object (json : Json)

namespace Value

/-- The name of the shape of a value in messages. -/
def kind : Value → String
  | .null => "null"
  | .bool _ => "bool"
  | .u8 _ => "u8"
  | .i16 _ => "i16"
  | .i32 _ => "i32"
  | .i64 _ => "i64"
  | .f32 _ => "f32"
  | .f64 _ => "f64"
  | .decimal _ => "decimal"
  | .enum _ => "enum"
  | .guid _ => "guid"
  | .date _ => "date"
  | .time _ => "time"
  | .dateTime _ => "datetime"
  | .color _ => "color"
  | .typeDescriptor _ => "type_descriptor"
  | .string _ => "string"
  | .bytes _ => "bytes"
  | .image _ => "image"
  | .svg _ => "svg_image"
  | .links _ => "link_collection"
  | .bits _ => "bit_array"
  | .object _ => "object"

def isNull : Value → Bool
  | .null => true
  | _ => false

/-- The number that a value is, if it is one. -/
def number? : Value → Option AnyNumber
  | .u8 n => some (.whole n.toNat)
  | .i16 n => some (.whole n.toInt)
  | .i32 n | .enum n => some (.whole n.toInt)
  | .i64 n => some (.whole n.toInt)
  | .f32 x => some (.binary x.widen)
  | .f64 x => some (.binary x)
  | .decimal d => some (.decimal d)
  | _ => none

/-- Whether two values are equal: numbers as numbers are, all else part by part. -/
def same : Value → Value → Bool
  | .null, .null => true
  | .bool a, .bool b => a == b
  | .u8 a, .u8 b => a == b
  | .i16 a, .i16 b => a == b
  | .i32 a, .i32 b => a == b
  | .i64 a, .i64 b => a == b
  | .f32 a, .f32 b => a.same b
  | .f64 a, .f64 b => a.same b
  | .decimal a, .decimal b => a.same b
  | .enum a, .enum b => a == b
  | .guid a, .guid b => a == b
  | .date a, .date b => a == b
  | .time a, .time b => a == b
  | .dateTime a, .dateTime b => a == b
  | .color a, .color b => a == b
  | .typeDescriptor a, .typeDescriptor b => a == b
  | .string a, .string b => a == b
  | .bytes a, .bytes b => a == b
  | .image a, .image b => a == b
  | .svg a, .svg b => a == b
  | .links a, .links b => a == b
  | .bits a, .bits b => a == b
  | .object a, .object b => a.same b
  | _, _ => false

end Value

/-- A value in the shape in which a database driver takes and gives it. -/
inductive StoredValue
  | null
  | bool (b : Bool)
  | u8 (n : UInt8)
  | i16 (n : Int16)
  | i32 (n : Int32)
  | i64 (n : Int64)
  | f32 (x : Single)
  | f64 (x : Double)
  | decimal (d : Decimal)
  | text (s : String)
  | bytes (bytes : List UInt8)
  | uuid (id : Guid)
  | date (d : Date)
  | time (t : Time)
  | dateTime (t : DateTime)
  deriving DecidableEq

/-- The type of a stored value. -/
inductive StoredType
  | null | bool | u8 | i16 | i32 | i64 | f32 | f64 | decimal | text | bytes | uuid | date | time
  | dateTime
  deriving DecidableEq, Repr

namespace StoredType

/-- The name of a type in messages. -/
def name : StoredType → String
  | .null => "null"
  | .bool => "bool"
  | .u8 => "u8"
  | .i16 => "i16"
  | .i32 => "i32"
  | .i64 => "i64"
  | .f32 => "f32"
  | .f64 => "f64"
  | .decimal => "decimal"
  | .text => "text"
  | .bytes => "bytes"
  | .uuid => "uuid"
  | .date => "date"
  | .time => "time"
  | .dateTime => "datetime"

end StoredType

namespace StoredValue

def type : StoredValue → StoredType
  | .null => .null
  | .bool _ => .bool
  | .u8 _ => .u8
  | .i16 _ => .i16
  | .i32 _ => .i32
  | .i64 _ => .i64
  | .f32 _ => .f32
  | .f64 _ => .f64
  | .decimal _ => .decimal
  | .text _ => .text
  | .bytes _ => .bytes
  | .uuid _ => .uuid
  | .date _ => .date
  | .time _ => .time
  | .dateTime _ => .dateTime

/-- The number that a stored value is, if it is one; text is read as a number. -/
def number? : StoredValue → Option AnyNumber
  | .u8 n => some (.whole n.toNat)
  | .i16 n => some (.whole n.toInt)
  | .i32 n => some (.whole n.toInt)
  | .i64 n => some (.whole n.toInt)
  | .f32 x => some (.binary x.widen)
  | .f64 x => some (.binary x)
  | .decimal d => some (.decimal d)
  | .bool b => some (.whole (if b then 1 else 0))
  | .text s => AnyNumber.read s.toList
  | _ => none

end StoredValue

end PortableSql
