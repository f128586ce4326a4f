import PortableSql.Proofs.Value.Forms
import PortableSql.Value.Codec

/-!
# Identifiers in several storages

Which bytes stand where in the mixed-endian layout, and what one engine reads where another one has
written. Bytes do not say in which layout they are, so an engine reads them in its own; the other two forms
say what they are. Main statement: `guids_across_storages`.
-/
namespace PortableSql

open Text

/-- An identifier, or a text that is read as one. -/
inductive Value.IsGuid (id : Guid) : Value → Prop
  | guid : IsGuid id (.guid id)
  | text {text : String} (reads : Guid.read text.toList = some id) : IsGuid id (.string text)

namespace Guid

/-- The place of a byte in the other layout: the places 0 to 3, 4 and 5, and 6 and 7 are turned around. -/
def mirroredPlace (i : Nat) : Nat :=
  if i < 4 then 3 - i else if i < 6 then 9 - i else if i < 8 then 13 - i else i

theorem mixEndian_length (bytes : List UInt8) : (mixEndian bytes).length = bytes.length := by
  simp only [mixEndian, List.length_append, List.length_reverse, List.length_take, List.length_drop]
  omega

theorem getElem?_mixEndian {bytes : List UInt8} (size : bytes.length = 16) (i : Nat) :
    (mixEndian bytes)[i]? = bytes[mirroredPlace i]? := by
  match bytes, size with
  | [_, _, _, _, _, _, _, _, _, _, _, _, _, _, _, _], _ =>
    by_cases inside : i < 16
    · interval_cases i <;> rfl
    · rw [mirroredPlace, if_neg (by omega), if_neg (by omega), if_neg (by omega),
        List.getElem?_eq_none (by rw [mixEndian_length]; simpa using inside),
        List.getElem?_eq_none (by simpa using inside)]

/-- The identifier with its bytes in the other layout. -/
def mixed (id : Guid) : Guid :=
  ⟨mixEndian id.bytes, (mixEndian_length id.bytes).trans id.size⟩

theorem ofBytes?_mixEndian (id : Guid) : ofBytes? (mixEndian id.bytes) = some id.mixed :=
  id.mixed.ofBytes?_bytes

theorem mixed_nil : Guid.nil.mixed = .nil := rfl

end Guid

namespace GuidStorage

/-- What a storage of the first kind writes is read by one of the second kind in the layout that it was
written in. -/
def SameLayout (writer reader : GuidStorage) : Prop :=
  writer = .native ∨ writer = .text ∨ writer = .bytes ∧ reader ≠ .mixedEndianBytes ∨
    writer = .mixedEndianBytes ∧ reader = .mixedEndianBytes

instance (writer reader : GuidStorage) : Decidable (SameLayout writer reader) :=
  inferInstanceAs (Decidable (_ ∨ _ ∨ _ ∨ _))

theorem sameLayout_self (storage : GuidStorage) : storage.SameLayout storage := by
  cases storage <;> decide

end GuidStorage

namespace Codec

theorem storeGuid_of_ne {id : Guid} (notNil : id ≠ .nil) (codec : Codec) :
    codec.storeGuid id = match codec.guidStorage with
      | .native => .uuid id
      | .text => .text id.toText
      | .bytes => .bytes id.bytes
      | .mixedEndianBytes => .bytes id.toMixedEndian := by
  have isNil : ¬ id.isNil = true := by
    simpa [Guid.isNil] using notNil
  exact if_neg isNil

theorem load_guid_text (codec : Codec) (text : String) : codec.load .guid (.text text) =
    readAs (.invalidGuid text) .guid (Guid.read (trim text.toList)) := rfl

theorem load_guid_bytes (codec : Codec) (bytes : List UInt8) :
    codec.load .guid (.bytes bytes) = (codec.loadGuid bytes).map .guid := rfl

/-- What one engine loads of the identifier that another one stored. -/
theorem load_storeGuid_across (writer reader : Codec) (id : Guid) :
    reader.load .guid (writer.storeGuid id) = .ok (.guid
      (if writer.guidStorage.SameLayout reader.guidStorage then id else id.mixed)) := by
  by_cases zero : id = .nil
  · subst zero
    rw [Guid.mixed_nil, ite_self]
    rfl
  · rw [storeGuid_of_ne zero]
    cases written : writer.guidStorage with
    | native =>
      rw [if_pos (.inl rfl)]
      rfl
    | text =>
      rw [if_pos (.inr (.inl rfl)), load_guid_text, id.read_trim_toText, readAs]
    | bytes =>
      rw [load_guid_bytes, loadGuid]
      by_cases mixed : reader.guidStorage = .mixedEndianBytes
      · rw [if_pos mixed, if_neg (by simp [GuidStorage.SameLayout, mixed]), Guid.ofMixedEndian?,
          id.ofBytes?_mixEndian]
        rfl
      · rw [if_neg mixed, if_pos (by simp [GuidStorage.SameLayout, mixed]), id.ofBytes?_bytes]
        rfl
    | mixedEndianBytes =>
      rw [load_guid_bytes, loadGuid]
      by_cases mixed : reader.guidStorage = .mixedEndianBytes
      · rw [if_pos mixed, if_pos (by simp [GuidStorage.SameLayout, mixed]),
          id.ofMixedEndian?_toMixedEndian]
        rfl
      · rw [if_neg mixed, if_neg (by simp [GuidStorage.SameLayout, mixed]), Guid.toMixedEndian,
          id.ofBytes?_mixEndian]
        rfl

theorem load_storeGuid (codec : Codec) (id : Guid) :
    codec.load .guid (codec.storeGuid id) = .ok (.guid id) := by
  rw [load_storeGuid_across, if_pos codec.guidStorage.sameLayout_self]

theorem storeGuid_injective (codec : Codec) {id other : Guid}
    (same : codec.storeGuid id = codec.storeGuid other) : id = other := by
  have loaded := codec.load_storeGuid id
  rw [same, load_storeGuid] at loaded
  simpa using loaded.symm

theorem toDatabase_guid (codec : Codec) (encoders : Encoders) {id : Guid} {value : Value}
    (isGuid : value.IsGuid id) (compress : Bool) : codec.toDatabase encoders value .guid compress =
      .ok (codec.storeGuid id, codec.storedType .guid) := by
  cases isGuid with
  | guid => rfl
  | text reads =>
    simp only [toDatabase, store, Value.isNull, if_neg Bool.false_ne_true, storeValue, reads]

theorem loadGuid_of_length_ne {bytes : List UInt8} (size : bytes.length ≠ 16) (codec : Codec) :
    codec.loadGuid bytes = .error (.guidSize bytes.length) := by
  have plain : Guid.ofBytes? bytes = none := dif_neg size
  have mixed : Guid.ofMixedEndian? bytes = none := by
    rw [Guid.ofMixedEndian?, Guid.ofBytes?, dif_neg]
    rwa [Guid.mixEndian_length]
  rw [loadGuid, plain, mixed, ite_self]

/-- Every engine reads the identifier that another one has written, in the layout that it reads bytes in.
The mixed-endian layout turns three groups of bytes around and nothing else; no two identifiers are written
alike; and bytes of another number than sixteen are no identifier. -/
theorem guids_across_storages (encoders : Encoders) :
    (∀ (writer reader : Codec) (id : Guid) (value : Value) (compress : Bool), value.IsGuid id →
        ∃ raw, writer.toDatabase encoders value .guid compress = .ok (raw, writer.storedType .guid) ∧
          reader.fromDatabase raw .guid = .ok (.guid
            (if writer.guidStorage.SameLayout reader.guidStorage then id else id.mixed))) ∧
      (∀ (writer : Codec) (id : Guid) (value : Value) (compress : Bool), value.IsGuid id →
        writer.guidStorage = .mixedEndianBytes → id ≠ .nil →
          ∃ bytes, writer.toDatabase encoders value .guid compress = .ok (.bytes bytes, .bytes) ∧
            bytes.length = 16 ∧ ∀ i, bytes[i]? = id.bytes[Guid.mirroredPlace i]?) ∧
      (∀ (writer : Codec) (id other : Guid) (value value' : Value) (compress compress' : Bool),
        value.IsGuid id → value'.IsGuid other →
          writer.toDatabase encoders value .guid compress = writer.toDatabase encoders value' .guid compress' →
            id = other) ∧
      ∀ (reader : Codec) (bytes : List UInt8), bytes.length ≠ 16 →
        reader.fromDatabase (.bytes bytes) .guid =
          .error ⟨.fromDatabase, .guid, .bytes, .guidSize bytes.length⟩ := by
  refine ⟨?_, ?_, ?_, ?_⟩
  · intro writer reader id value compress isGuid
    refine ⟨writer.storeGuid id, writer.toDatabase_guid encoders isGuid compress, ?_⟩
    rw [fromDatabase, load_storeGuid_across]
  · intro writer id value compress isGuid storage notNil
    refine ⟨id.toMixedEndian, ?_, (Guid.mixEndian_length id.bytes).trans id.size,
      Guid.getElem?_mixEndian id.size⟩
    rw [writer.toDatabase_guid encoders isGuid, storeGuid_of_ne notNil, storedType, storage]
  · intro writer id other value value' compress compress' isGuid isOther same
    rw [writer.toDatabase_guid encoders isGuid, writer.toDatabase_guid encoders isOther] at same
    exact writer.storeGuid_injective (Prod.mk.inj (Except.ok.inj same)).1
  · intro reader bytes size
    rw [fromDatabase, load_guid_bytes, loadGuid_of_length_ne size]
    rfl

/-- An identifier in braces, written with its first groups turned around and read as plain bytes. -/
theorem guids_across_storages_of_braced_text :
    let writer : Codec := ⟨.mixedEndianBytes, .unbounded⟩
    let reader : Codec := ⟨.bytes, .fixedWidth 8⟩
    let braced : Value := .string "\x7b00112233-4455-6677-8899-AABBCCDDEEFF\x7d"
    let read : Guid := ⟨[0x33, 0x22, 0x11, 0x00, 0x55, 0x44, 0x77, 0x66, 0x88, 0x99, 0xaa, 0xbb, 0xcc,
      0xdd, 0xee, 0xff], rfl⟩
    ∃ raw, writer.toDatabase .stored braced .guid true = .ok (raw, .bytes) ∧
      reader.fromDatabase raw .guid = .ok (.guid read) := by
  intro writer reader braced read
  exact (guids_across_storages .stored).1 writer reader read.mixed braced true (.text (by cbv))

end Codec

end PortableSql
