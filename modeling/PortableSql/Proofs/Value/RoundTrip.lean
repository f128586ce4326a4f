import PortableSql.Proofs.Compression.Gzip
import PortableSql.Proofs.Image.Png.RoundTrip
import PortableSql.Proofs.Number.Widening
import PortableSql.Proofs.Value.Guids

/-!
# Values come back

What a rule stores for a value of its type's own kind is loaded by the same rule as that value, in every
storage of identifiers, whether or not documents are compressed, and whatever encoders compress documents and
write images, as long as the readers take what they write. Two rules take a detour: the identifier of zeros
is stored as no value at all and comes back from there, and a stored document does not say whether it is
compressed, which its first two bytes decide.
-/
namespace PortableSql

open Calendar Number Text Compression

/-- The values of a type's own kind. Collections of links are left out, and so are binary numbers that are
no number. -/
inductive FieldType.Owns : FieldType → Value → Prop
  | enum (name : String) (n : Int32) : Owns (.enum name) (.enum n)
  | guid (id : Guid) : Owns .guid (.guid id)
  | bool (b : Bool) : Owns .bool (.bool b)
  | u8 (n : UInt8) : Owns .u8 (.u8 n)
  | i16 (n : Int16) : Owns .i16 (.i16 n)
  | i32 (n : Int32) : Owns .i32 (.i32 n)
  | i64 (n : Int64) : Owns .i64 (.i64 n)
  | f32 (x : Single) (number : x.meaning ≠ .nan) : Owns .f32 (.f32 x)
  | f64 (x : Double) (number : x.meaning ≠ .nan) : Owns .f64 (.f64 x)
  | decimal (d : Decimal) : Owns .decimal (.decimal d)
  | date (d : Date) : Owns .date (.date d)
  | time (t : Time) : Owns .time (.time t)
  | dateTime (t : DateTime) : Owns .dateTime (.dateTime t)
  | color (c : Color) : Owns .color (.color c)
  | typeDescriptor (name : String) : Owns .typeDescriptor (.typeDescriptor name)
  | string (s : String) : Owns .string (.string s)
  | bytes (bytes : List UInt8) : Owns .bytes (.bytes bytes)
  | image (bitmap : Bitmap) : Owns .image (.image bitmap)
  | svgImage (markup : String) : Owns .svgImage (.svg markup)
  | bitArray (bits : BitArray) : Owns .bitArray (.bits bits)
  | object (name : String) (json : Json) : Owns (.object name) (.object json)

namespace Encoders

theorem faithful_stored : stored.Faithful where
  take_gzip := by
    rintro plain bytes ⟨⟩
    exact Gzip.take_stored plain
  decompress_gzip := by
    rintro plain bytes ⟨⟩
    exact Gzip.decompress_stored plain
  decode_png written := Png.decode_stored written

/-- The same encoders, but with a gzip file of its own for one text. -/
def withFile (encoders : Encoders) (plain file : List UInt8) : Encoders where
  gzip other := if other = plain then some file else encoders.gzip other
  png := encoders.png

theorem withFile_gzip (encoders : Encoders) (plain file : List UInt8) :
    (encoders.withFile plain file).gzip plain = some file :=
  if_pos rfl

theorem withFile_gzip_cases {encoders : Encoders} {plain file other bytes : List UInt8}
    (written : (encoders.withFile plain file).gzip other = some bytes) :
    other = plain ∧ bytes = file ∨ encoders.gzip other = some bytes := by
  by_cases same : other = plain
  · rw [same, withFile_gzip] at written
    exact .inl ⟨same, (Option.some.inj written).symm⟩
  · exact .inr (Eq.trans (if_neg same).symm written)

/-- Any gzip file of a text may be the one that is written for it. -/
theorem Faithful.withFile {encoders : Encoders} (faithful : encoders.Faithful) {plain file : List UInt8}
    (marked : file.take 2 = Gzip.magic) (reads : Gzip.decompress file = some plain) :
    (encoders.withFile plain file).Faithful where
  take_gzip {other bytes} written := by
    rcases withFile_gzip_cases written with ⟨_, rfl⟩ | kept
    · exact marked
    · exact faithful.take_gzip kept
  decompress_gzip {other bytes} written := by
    rcases withFile_gzip_cases written with ⟨rfl, rfl⟩ | kept
    · exact reads
    · exact faithful.decompress_gzip kept
  decode_png written := faithful.decode_png written

end Encoders

namespace Codec

theorem integral_whole (type : FieldType) {low high n : Int} (h : low ≤ n ∧ n ≤ high) :
    integral type low high (.whole n) = .ok n := by
  simp [integral, AnyNumber.toInt?, h]

theorem integral_int32 (type : FieldType) (n : Int32) :
    integral type (-2147483648) 2147483647 (.whole n.toInt) = .ok n.toInt := by
  have low := n.le_toInt
  have high := n.toInt_lt
  exact integral_whole type (by omega)

/-- A number of a numeric type is stored as it is. -/
theorem storeNumber_own {type : FieldType} {value : Value} {n : AnyNumber} (own : type.Owns value)
    (numeric : type.isNumeric = true) (number : value.number? = some n) :
    ∃ raw, storeNumber type n = .ok raw ∧ raw.number? = some n ∧ raw.type ≠ .null
      ∧ loadNumber raw = value := by
  cases own with
  | u8 n =>
    cases number
    have small := n.toNat_lt
    refine ⟨.u8 n, ?_, rfl, nofun, rfl⟩
    rw [storeNumber, integral_whole _ (by omega)]
    simp [Except.map]
  | i16 n =>
    cases number
    have low := n.le_toInt
    have high := n.toInt_lt
    refine ⟨.i16 n, ?_, rfl, nofun, rfl⟩
    rw [storeNumber, integral_whole _ (by omega)]
    simp [Except.map]
  | i32 n =>
    cases number
    refine ⟨.i32 n, ?_, rfl, nofun, rfl⟩
    rw [storeNumber, integral_int32]
    simp [Except.map]
  | i64 n =>
    cases number
    have low := n.le_toInt
    have high := n.toInt_lt
    refine ⟨.i64 n, ?_, rfl, nofun, rfl⟩
    rw [storeNumber, integral_whole _ (by omega)]
    simp [Except.map]
  | f32 x isNumber =>
    cases number
    refine ⟨.f32 x, ?_, rfl, nofun, rfl⟩
    rw [storeNumber, AnyNumber.toDouble, x.narrow_widen isNumber]
  | f64 x =>
    cases number
    exact ⟨.f64 x, rfl, rfl, nofun, rfl⟩
  | decimal d =>
    cases number
    exact ⟨.decimal d, rfl, rfl, nofun, rfl⟩
  | _ => cases numeric

theorem loadValue_numeric (codec : Codec) {type : FieldType} (numeric : type.isNumeric = true)
    (raw : StoredValue) : codec.loadValue type raw
      = withNumber type raw fun n => (storeNumber type n).map loadNumber := by
  cases type <;> first | rfl | cases numeric

theorem load_storeNumber (codec : Codec) {type : FieldType} {value : Value} {n : AnyNumber}
    {raw : StoredValue} (own : type.Owns value) (numeric : type.isNumeric = true)
    (number : value.number? = some n) (stored : storeNumber type n = .ok raw) :
    codec.load type raw = .ok value := by
  obtain ⟨same, h, again, there, back⟩ := storeNumber_own own numeric number
  obtain rfl : same = raw := Except.ok.inj (h.symm.trans stored)
  rw [load, if_neg there, loadValue_numeric codec numeric, withNumber, again]
  simp only [h, Except.map, back]

/-- A compressed document is known by the two bytes in front. -/
theorem load_compressed (codec : Codec) (name : String) {json : Json} {bytes : List UInt8}
    (marked : bytes.take 2 = Gzip.magic) (plain : Gzip.decompress bytes = some (encodeUtf8 json.compact))
    (printed : Json.read json.compact.toList = some json) :
    codec.load (.object name) (.bytes bytes) = .ok (.object json) := by
  show (loadDocument name (.bytes bytes)).map Value.object = _
  simp only [loadDocument, marked, if_true, plain, decodeUtf8?_encodeUtf8, Option.bind_some, printed]
  rfl

/-- A document as it is printed is not taken for a compressed one. -/
theorem load_plain (codec : Codec) (name : String) {json : Json}
    (printed : Json.read json.compact.toList = some json) :
    codec.load (.object name) (.bytes (encodeUtf8 json.compact)) = .ok (.object json) := by
  have plain := Gzip.take_encodeUtf8_ne_magic json.compact
  show (loadDocument name (.bytes (encodeUtf8 json.compact))).map Value.object = _
  simp only [loadDocument, plain, if_false, decodeUtf8?_encodeUtf8, Option.bind_some, printed]
  rfl

/-- A stored document is loaded, whether or not it was compressed. -/
theorem load_object {codec : Codec} {encoders : Encoders} (faithful : encoders.Faithful) {name : String}
    {json : Json} (printed : Json.read json.compact.toList = some json) {compress : Bool}
    {raw : StoredValue} (stored : codec.storeValue encoders (.object name) compress (.object json) = .ok raw) :
    codec.load (.object name) raw = .ok (.object json) := by
  rw [storeValue] at stored
  cases compress with
  | true =>
    simp only [if_true] at stored
    cases written : encoders.gzip (encodeUtf8 json.compact) with
    | none => simp [written] at stored
    | some bytes =>
      rw [written] at stored
      cases stored
      exact load_compressed codec name (faithful.take_gzip written) (faithful.decompress_gzip written)
        printed
  | false =>
    cases stored
    exact load_plain codec name printed

theorem load_enum (codec : Codec) (name : String) (n : Int32) :
    codec.load (.enum name) (.i32 n) = .ok (.enum n) := by
  show (integral _ _ _ (.whole n.toInt)).map (fun i => Value.enum (Int32.ofInt i)) = _
  rw [integral_int32, Except.map, Int32.ofInt_toInt]

theorem load_color (codec : Codec) (c : Color) :
    codec.load .color (.i32 c.toArgb) = .ok (.color c) := by
  have low := c.toArgb.le_toInt
  have high := c.toArgb.toInt_lt
  have range : -2147483648 ≤ c.toArgb.toInt ∧ c.toArgb.toInt < 4294967296 := by omega
  show (if -2147483648 ≤ c.toArgb.toInt ∧ c.toArgb.toInt < 4294967296 then
      Except.ok (Value.color (Color.ofInt c.toArgb.toInt)) else _) = _
  rw [if_pos range, c.ofInt_toArgb]

/-- What is loaded of a stored value of a type's own kind is the value. -/
theorem load_of_storeValue {codec : Codec} {encoders : Encoders} (faithful : encoders.Faithful)
    (unbounded : codec.textPolicy = .unbounded)
    {type : FieldType} {value : Value} (own : type.Owns value)
    (documents : ∀ json, value = .object json → Json.read json.compact.toList = some json)
    {compress : Bool} {raw : StoredValue}
    (stored : codec.storeValue encoders type compress value = .ok raw) : codec.load type raw = .ok value := by
  cases own with
  | u8 n => exact load_storeNumber codec (.u8 n) rfl rfl stored
  | i16 n => exact load_storeNumber codec (.i16 n) rfl rfl stored
  | i32 n => exact load_storeNumber codec (.i32 n) rfl rfl stored
  | i64 n => exact load_storeNumber codec (.i64 n) rfl rfl stored
  | f32 x number => exact load_storeNumber codec (.f32 x number) rfl rfl stored
  | f64 x number => exact load_storeNumber codec (.f64 x number) rfl rfl stored
  | decimal d => exact load_storeNumber codec (.decimal d) rfl rfl stored
  | enum name n =>
    have h : codec.storeValue encoders (.enum name) compress (.enum n) = .ok (.i32 n) := by
      show (integral _ _ _ (.whole n.toInt)).map (fun i => StoredValue.i32 (Int32.ofInt i)) = _
      rw [integral_int32, Except.map, Int32.ofInt_toInt]
    rw [h] at stored
    cases stored
    exact load_enum codec name n
  | guid id =>
    cases stored
    exact load_storeGuid codec id
  | color c =>
    cases stored
    exact load_color codec c
  | string s =>
    rw [storeValue, storeText, unbounded] at stored
    cases stored
    have read : codec.load .string (.text s) = .ok (.string (codec.loadText s)) := rfl
    rw [read, loadText, unbounded]
  | image bitmap =>
    rw [storeValue] at stored
    cases written : encoders.png bitmap with
    | none => simp [written] at stored
    | some bytes =>
      rw [written] at stored
      cases stored
      show readAs _ Value.image (Png.decode bytes) = _
      rw [faithful.decode_png written]
      rfl
  | svgImage markup =>
    cases stored
    show readAs _ Value.svg (decodeUtf8? (encodeUtf8 markup)) = _
    rw [decodeUtf8?_encodeUtf8]
    rfl
  | bitArray bits =>
    cases stored
    show Except.ok (Value.bits (.ofBytes bits.bytes)) = _
    rw [BitArray.ofBytes_bytes]
  | object name json => exact load_object faithful (documents json rfl) stored
  | _ =>
    cases stored
    rfl

/-- A value of its type's own kind comes back as it was, whatever files the encoders write of it that the readers
take. A document has to be one that its text is read as. -/
theorem fromDatabase_toDatabase {codec : Codec} (unbounded : codec.textPolicy = .unbounded)
    {encoders : Encoders} (faithful : encoders.Faithful) {type : FieldType} {value : Value}
    (own : type.Owns value)
    (documents : ∀ json, value = .object json → Json.read json.compact.toList = some json)
    {compress : Bool} {raw : StoredValue} {column : StoredType}
    (stored : codec.toDatabase encoders value type compress = .ok (raw, column)) :
    codec.fromDatabase raw type = .ok value := by
  have there : value.isNull = false := by cases own <;> rfl
  rw [toDatabase, store, there, if_neg Bool.false_ne_true] at stored
  cases rule : codec.storeValue encoders type compress value with
  | error fault => simp [rule] at stored
  | ok kept =>
    simp only [rule, Except.ok.injEq, Prod.mk.injEq] at stored
    rw [stored.1] at rule
    rw [fromDatabase, load_of_storeValue faithful unbounded own documents rule]

/-- A document comes back from a file in the fixed Huffman code, which repeats bytes that stand before. -/
theorem fromDatabase_toDatabase_of_compressed_document :
    let json := Json.array [.null, .null, .null]
    let file : List UInt8 := [0x1f, 0x8b, 8, 0, 0, 0, 0, 0, 0, 255, 0x8b, 0xce, 0x2b, 0xcd, 0xc9, 0xd1, 0x81,
      0x13, 0xb1, 0, 0x5b, 0x31, 0xb5, 0xa3, 16, 0, 0, 0]
    let encoders := Encoders.stored.withFile (encodeUtf8 json.compact) file
    let codec : Codec := ⟨.mixedEndianBytes, .unbounded⟩
    encoders.Faithful ∧
      codec.toDatabase encoders (.object json) (.object "Settings") true = .ok (.bytes file, .bytes) ∧
      codec.fromDatabase (.bytes file) (.object "Settings") = .ok (.object json) := by
  intro json file encoders codec
  have reads : Gzip.decompress file = some (encodeUtf8 json.compact) := by decide +kernel
  have faithful : encoders.Faithful := Encoders.faithful_stored.withFile rfl reads
  have stored : codec.toDatabase encoders (.object json) (.object "Settings") true =
      .ok (.bytes file, .bytes) := by
    simp only [encoders, toDatabase, store, Value.isNull, storeValue, Encoders.withFile_gzip]
    rfl
  refine ⟨faithful, stored, fromDatabase_toDatabase rfl faithful (.object "Settings" json) ?_ stored⟩
  intro document same
  cases same
  cbv

end Codec

end PortableSql
