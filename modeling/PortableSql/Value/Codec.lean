import PortableSql.Calendar.Pattern
import PortableSql.Json.Printer
import PortableSql.Json.Reader
import PortableSql.Text.Utf8
import PortableSql.Value.Encoders
import PortableSql.Value.Error
import PortableSql.Value.Storage

/-!
Storing and loading values. Each rule is chosen by the declared type of the field and never by the shape of
the value; a value of a shape that the rule does not take is an error. Loading takes more shapes than
storing makes: numbers in any type that holds them exactly, and dates, numbers and truth values as text.
-/
namespace PortableSql

open Calendar Number Text

namespace Codec

/-- The type in which the values of a declared type are stored. -/
def storedType (codec : Codec) : FieldType → StoredType
  | .enum _ | .color | .i32 => .i32
  | .guid =>
    match codec.guidStorage with
    | .native => .uuid
    | .text => .text
    | .bytes | .mixedEndianBytes => .bytes
  | .bool => .bool
  | .u8 => .u8
  | .i16 => .i16
  | .i64 => .i64
  | .f32 => .f32
  | .f64 => .f64
  | .decimal => .decimal
  | .date => .date
  | .time => .time
  | .dateTime => .dateTime
  | .typeDescriptor | .string | .linkCollection => .text
  | .bytes | .image | .svgImage | .bitArray | .object _ => .bytes

/-- The whole number that a number is, if it lies from `low` up to `high`. -/
def integral (type : FieldType) (low high : Int) (n : AnyNumber) : Except ConversionFault Int :=
  match n.toInt? with
  | none => .error (.notIntegral n type)
  | some i => if low ≤ i ∧ i ≤ high then .ok i else .error (.outOfRange i type)

/-- A number in the stored form of a numeric type or of an enumeration. -/
def storeNumber (type : FieldType) (n : AnyNumber) : Except ConversionFault StoredValue :=
  match type with
  | .u8 => (integral type 0 255 n).map fun i => .u8 (UInt8.ofNat i.toNat)
  | .i16 => (integral type (-32768) 32767 n).map fun i => .i16 (Int16.ofInt i)
  | .i32 | .enum _ => (integral type (-2147483648) 2147483647 n).map fun i => .i32 (Int32.ofInt i)
  | .i64 => (integral type (-9223372036854775808) 9223372036854775807 n).map fun i => .i64 (Int64.ofInt i)
  | .f32 => .ok (.f32 n.toDouble.narrow)
  | .f64 => .ok (.f64 n.toDouble)
  | .decimal =>
    match n.toDecimal? with
    | some d => .ok (.decimal d)
    | none => .error (.notDecimal n)
  | type => .error (.unexpected type "number")

/-- The value that a stored number is. -/
def loadNumber : StoredValue → Value
  | .u8 n => .u8 n
  | .i16 n => .i16 n
  | .i32 n => .i32 n
  | .i64 n => .i64 n
  | .f32 x => .f32 x
  | .f64 x => .f64 x
  | .decimal d => .decimal d
  | _ => .null

/-- The stored form of zero. -/
def storedZero : FieldType → StoredValue
  | .u8 => .u8 0
  | .i16 => .i16 0
  | .i64 => .i64 0
  | .f32 => .f32 .zero
  | .f64 => .f64 .zero
  | .decimal => .decimal .zero
  | _ => .i32 0

/-- What is stored where there is no value. -/
def storeNull : FieldType → StoredValue
  | .bool => .bool false
  | .string => .text ""
  | .enum _ => .i32 0
  | type => if type.isNumeric then storedZero type else .null

/-- What is loaded where nothing is stored. -/
def loadNull : FieldType → Value
  | .bool => .bool false
  | .string => .string ""
  | .enum _ => .enum 0
  | .guid => .guid .nil
  | type => if type.isNumeric then loadNumber (storedZero type) else .null

/-- An identifier in the form of the engine; the identifier of zeros is no value. -/
def storeGuid (codec : Codec) (id : Guid) : StoredValue :=
  if id.isNil then .null
  else
    match codec.guidStorage with
    | .native => .uuid id
    | .text => .text id.toText
    | .bytes => .bytes id.bytes
    | .mixedEndianBytes => .bytes id.toMixedEndian

/-- The identifier that bytes are on this engine. -/
def loadGuid (codec : Codec) (bytes : List UInt8) : Except ConversionFault Guid :=
  let id :=
    if codec.guidStorage = .mixedEndianBytes then Guid.ofMixedEndian? bytes else Guid.ofBytes? bytes
  match id with
  | some id => .ok id
  | none => .error (.guidSize bytes.length)

/-- Text, if it is not too wide for the engine. -/
def storeText (codec : Codec) (s : String) : Except ConversionFault StoredValue :=
  match codec.textPolicy with
  | .unbounded => .ok (.text s)
  | .fixedWidth width =>
    if s.length ≤ width then .ok (.text s) else .error (.tooWide s.length width)

/-- Text without the blanks that a column of fixed width is filled up with. -/
def loadText (codec : Codec) (s : String) : String :=
  match codec.textPolicy with
  | .unbounded => s
  | .fixedWidth _ => String.ofList (dropEndWhile (· = ' ') s.toList)

/-- The stored form of a value that is not null. -/
def storeValue (codec : Codec) (encoders : Encoders) (type : FieldType) (compress : Bool)
    (value : Value) : Except ConversionFault StoredValue :=
  match type, value with
  | .guid, .guid id => .ok (codec.storeGuid id)
  | .guid, .string text =>
    match Guid.read text.toList with
    | some id => .ok (codec.storeGuid id)
    | none => .error (.invalidGuid text)
  | .bool, .bool b => .ok (.bool b)
  | .date, .date d => .ok (.date d)
  | .time, .time t => .ok (.time t)
  | .dateTime, .dateTime t => .ok (.dateTime t)
  | .dateTime, .date d => .ok (.dateTime ⟨d, .midnight⟩)
  | .color, .color c => .ok (.i32 c.toArgb)
  | .typeDescriptor, .typeDescriptor name => .ok (.text name)
  | .typeDescriptor, .string name => .ok (.text name)
  | .string, .string s => codec.storeText s
  | .bytes, .bytes bytes => .ok (.bytes bytes)
  | .image, .image bitmap =>
    match encoders.png bitmap with
    | some bytes => .ok (.bytes bytes)
    | none => .error .imageEncoding
  | .svgImage, .svg markup => .ok (.bytes (encodeUtf8 markup))
  | .linkCollection, .links links =>
    match links.toText with
    | .ok text => .ok (.text text)
    | .error e => .error (.links e)
  | .bitArray, .bits bits => .ok (.bytes bits.bytes)
  | .object _, .object json =>
    let plain := encodeUtf8 json.compact
    if compress then
      match encoders.gzip plain with
      | some bytes => .ok (.bytes bytes)
      | none => .error .compression
    else
      .ok (.bytes plain)
  | type, value =>
    match value.number? with
    | some n =>
      if type.isNumeric || type matches .enum _ then storeNumber type n
      else .error (.unexpected type value.kind)
    | none => .error (.unexpected type value.kind)

/-- The stored form of a value. Documents are compressed where `compress` says so. -/
def store (codec : Codec) (encoders : Encoders) (type : FieldType) (compress : Bool) (value : Value) :
    Except ConversionFault StoredValue :=
  if value.isNull then .ok (storeNull type) else codec.storeValue encoders type compress value

/-- The truth value that a text is, in any case and with any blanks around it. -/
def readBool (text : String) : Option Bool :=
  let word := foldCase (trimmed text)
  if word ∈ ["1", "t", "true", "y", "yes"] then some true
  else if word ∈ ["0", "f", "false", "n", "no"] then some false
  else none

/-- The text of a text column or of a column of bytes. -/
def textOf? : StoredValue → Option String
  | .text s => some s
  | .bytes bytes => decodeUtf8? bytes
  | _ => none

/-- The document that a stored value holds, compressed or not. -/
def loadDocument (name : String) (raw : StoredValue) : Except ConversionFault Json :=
  let parse (text : Option String) : Except ConversionFault Json :=
    match text.bind fun text => Json.read text.toList with
    | some json => .ok json
    | none => .error (.invalidDocument name)
  match raw with
  | .text s => parse (some s)
  | .bytes bytes =>
    if bytes.take 2 = Compression.Gzip.magic then
      match Compression.Gzip.decompress bytes with
      | some plain => parse (decodeUtf8? plain)
      | none => .error .decompression
    else
      parse (decodeUtf8? bytes)
  | raw => .error (.unexpected (.object name) raw.type.name)

/-- A number read by a rule, or an error if there is no number. -/
def withNumber {α : Type} (type : FieldType) (raw : StoredValue)
    (rule : AnyNumber → Except ConversionFault α) : Except ConversionFault α :=
  match raw.number? with
  | some n => rule n
  | none => .error (.unexpected type raw.type.name)

/-- The value of a text that a rule reads. -/
def readAs {α : Type} (fault : ConversionFault) (make : α → Value) (read : Option α) :
    Except ConversionFault Value :=
  match read with
  | some a => .ok (make a)
  | none => .error fault

/-- The value of a stored value that is not null. -/
def loadValue (codec : Codec) (type : FieldType) (raw : StoredValue) :
    Except ConversionFault Value :=
  let mismatch : ConversionFault := .unexpected type raw.type.name
  match type with
  | .enum _ =>
    withNumber type raw fun n =>
      (integral type (-2147483648) 2147483647 n).map fun i => .enum (Int32.ofInt i)
  | .guid =>
    match raw with
    | .uuid id => .ok (.guid id)
    | .text text => readAs (.invalidGuid text) .guid (Guid.read (trim text.toList))
    | .bytes bytes => (codec.loadGuid bytes).map .guid
    | _ => .error mismatch
  | .bool =>
    match raw with
    | .bool b => .ok (.bool b)
    | .text text => readAs (.notBoolean text) .bool (readBool text)
    | raw => readAs mismatch (fun n => .bool (n != 0)) (raw.number?.bind AnyNumber.toInt?)
  | .date =>
    match raw with
    | .date d => .ok (.date d)
    | .dateTime t => .ok (.date t.date)
    | .text text =>
      readAs (.notDate text) .date
        ((readDate text.toList).or ((readDateTime text.toList).map DateTime.date))
    | _ => .error mismatch
  | .time =>
    match raw with
    | .time t => .ok (.time t)
    | .dateTime t => .ok (.time t.time)
    | .text text => readAs (.notTime text) .time (readTime text.toList)
    | _ => .error mismatch
  | .dateTime =>
    match raw with
    | .dateTime t => .ok (.dateTime t)
    | .date d => .ok (.dateTime ⟨d, .midnight⟩)
    | .text text => readAs (.notTimestamp text) .dateTime (readDateTime text.toList)
    | _ => .error mismatch
  | .color =>
    match raw.number?.bind AnyNumber.toInt? with
    | some n =>
      if -2147483648 ≤ n ∧ n < 4294967296 then .ok (.color (Color.ofInt n)) else .error (.notColor n)
    | none => .error mismatch
  | .typeDescriptor =>
    match raw with
    | .text name => .ok (.typeDescriptor name)
    | _ => .error mismatch
  | .string => readAs mismatch (fun s => .string (codec.loadText s)) (textOf? raw)
  | .bytes =>
    match raw with
    | .bytes bytes => .ok (.bytes bytes)
    | _ => .error mismatch
  | .image =>
    match raw with
    | .bytes bytes => readAs .imageDecoding .image (Png.decode bytes)
    | _ => .error mismatch
  | .svgImage => readAs mismatch .svg (textOf? raw)
  | .linkCollection =>
    match textOf? raw with
    | some text =>
      match LinkCollection.read text with
      | .ok links => .ok (.links links)
      | .error e => .error (.links e)
    | none => .error mismatch
  | .bitArray =>
    match raw with
    | .bytes bytes => .ok (.bits (.ofBytes bytes))
    | _ => .error mismatch
  | .object name => (loadDocument name raw).map .object
  | type => withNumber type raw fun n => (storeNumber type n).map loadNumber

/-- The value of a stored value. -/
def load (codec : Codec) (type : FieldType) (raw : StoredValue) : Except ConversionFault Value :=
  if raw.type = .null then .ok (loadNull type) else codec.loadValue type raw

/-- Stores a value: its stored form and the type of that form. -/
def toDatabase (codec : Codec) (encoders : Encoders) (value : Value) (type : FieldType) (compress : Bool) :
    Except ConversionError (StoredValue × StoredType) :=
  let stored := codec.storedType type
  match codec.store encoders type compress value with
  | .ok raw => .ok (raw, stored)
  | .error fault => .error ⟨.toDatabase, type, stored, fault⟩

/-- Loads a value from its stored form. -/
def fromDatabase (codec : Codec) (raw : StoredValue) (type : FieldType) :
    Except ConversionError Value :=
  match codec.load type raw with
  | .ok value => .ok value
  | .error fault => .error ⟨.fromDatabase, type, raw.type, fault⟩

end Codec

end PortableSql
