import PortableSql.Proofs.Result
import PortableSql.Value.Codec

/-!
# Declared types and stored types

Which columns take a value is said by the declared type alone, while what is stored is found by a rule for
each type, another one for missing values and a third one for identifiers. Main statement: the rules keep
to the column (`stored_as_declared`), with one lemma for each of them.
-/
namespace PortableSql

open Number Text

/-- The types for which a missing value is stored as a value. -/
def FieldType.HasDefault (type : FieldType) : Prop :=
  type = .bool ∨ type = .string ∨ (∃ name, type = .enum name) ∨ type.isNumeric = true

/-- The identifier of zeros, as an identifier or as text. -/
inductive Value.IsNilGuid : Value → Prop
  | guid : IsNilGuid (.guid .nil)
  | text {text : String} (reads : Guid.read text.toList = some .nil) : IsNilGuid (.string text)

namespace Codec

theorem storedType_ne_null (codec : Codec) (type : FieldType) : codec.storedType type ≠ .null := by
  cases type with
  | guid =>
    unfold storedType
    cases codec.guidStorage <;> nofun
  | _ => exact nofun

/-! ## Numbers, identifiers and missing values -/

theorem type_of_storeNumber (codec : Codec) {type : FieldType} {n : AnyNumber} {raw : StoredValue}
    (stored : storeNumber type n = .ok raw) : raw.type = codec.storedType type := by
  cases type with
  | u8 | i16 | i32 | i64 | enum =>
    obtain ⟨_, _, rfl⟩ := map_eq_ok_iff.1 stored
    rfl
  | f32 | f64 =>
    cases stored
    rfl
  | decimal =>
    simp only [storeNumber] at stored
    split at stored
    · cases stored
      rfl
    · cases stored
  | _ => cases stored

theorem type_of_storeGuid (codec : Codec) (id : Guid) :
    codec.storeGuid id = .null ∧ id = .nil ∨
      (codec.storeGuid id).type = codec.storedType .guid ∧ id ≠ .nil := by
  by_cases zero : id = .nil
  · left
    simp [storeGuid, Guid.isNil, zero]
  · right
    refine ⟨?_, zero⟩
    simp only [storeGuid, Guid.isNil, zero, decide_false, Bool.false_eq_true, if_false, storedType]
    cases codec.guidStorage <;> rfl

theorem storeNull_type (codec : Codec) (type : FieldType) :
    storeNull type = .null ∧ ¬ type.HasDefault ∨
      (storeNull type).type = codec.storedType type ∧ type.HasDefault := by
  unfold FieldType.HasDefault
  cases type with
  | bool | string | enum | u8 | i16 | i32 | i64 | f32 | f64 | decimal =>
    right
    exact ⟨rfl, by simp [FieldType.isNumeric]⟩
  | _ =>
    left
    exact ⟨rfl, by simp [FieldType.isNumeric]⟩

theorem load_storeNull (codec : Codec) (type : FieldType) :
    codec.load type (storeNull type) = .ok (loadNull type) := by
  cases type with
  | string =>
    obtain ⟨_, policy⟩ := codec
    cases policy <;> rfl
  | _ => rfl

theorem type_of_storeText {codec : Codec} {s : String} {raw : StoredValue}
    (stored : codec.storeText s = .ok raw) : raw.type = .text := by
  unfold storeText at stored
  split at stored
  · cases stored
    rfl
  · cases eq_ok_of_guarded stored
    rfl

/-! ## Values of any shape -/

/-- Outside identifiers no rule stores a null. -/
theorem type_of_storeValue {codec : Codec} {encoders : Encoders} {type : FieldType} (notGuid : type ≠ .guid)
    {compress : Bool} {value : Value} {raw : StoredValue}
    (stored : codec.storeValue encoders type compress value = .ok raw) :
    raw.type = codec.storedType type := by
  cases type with
  | guid => exact absurd rfl notGuid
  | u8 | i16 | i32 | i64 | f32 | f64 | decimal | enum =>
    -- all numbers go through one rule, whatever shape they come in
    simp only [storeValue] at stored
    split at stored
    · exact type_of_storeNumber codec (eq_ok_of_guarded stored)
    · cases stored
  | string =>
    cases value with
    | string => exact type_of_storeText stored
    | _ => cases stored
  | image =>
    cases value with
    | image =>
      simp only [storeValue] at stored
      split at stored
      · cases stored
        rfl
      · cases stored
    | _ => cases stored
  | linkCollection =>
    cases value with
    | links =>
      simp only [storeValue] at stored
      split at stored
      · cases stored
        rfl
      · cases stored
    | _ => cases stored
  | object =>
    cases value with
    | object =>
      simp only [storeValue] at stored
      split at stored
      · split at stored
        · cases stored
          rfl
        · cases stored
      · cases stored
        rfl
    | _ => cases stored
  | _ =>
    cases value <;> cases stored
    all_goals rfl

/-- An identifier is stored as it is, whether it comes as itself or as text. -/
theorem storeValue_guid {codec : Codec} {encoders : Encoders} {compress : Bool} {value : Value}
    {raw : StoredValue} (stored : codec.storeValue encoders .guid compress value = .ok raw) :
    ∃ id, raw = codec.storeGuid id ∧ (value.IsNilGuid ↔ id = .nil) := by
  cases value with
  | guid id =>
    cases stored
    refine ⟨id, rfl, fun isNil => ?_, ?_⟩
    · cases isNil
      rfl
    · rintro rfl
      exact .guid
  | string text =>
    simp only [storeValue] at stored
    split at stored
    · rename_i id reads
      cases stored
      refine ⟨id, rfl, fun isNil => ?_, ?_⟩
      · cases isNil with
        | text readsNil => exact Option.some.inj (reads.symm.trans readsNil)
      · rintro rfl
        exact .text reads
    · cases stored
  | _ => cases stored

/-- What is stored is either a null that the value asks for, or of the declared stored type. -/
theorem type_of_store {codec : Codec} {encoders : Encoders} {type : FieldType} {compress : Bool} {value : Value}
    {raw : StoredValue} (stored : codec.store encoders type compress value = .ok raw) :
    raw = .null ∧ (value = .null ∧ ¬ type.HasDefault ∨ type = .guid ∧ value.IsNilGuid) ∨
      raw.type = codec.storedType type ∧
        ¬ (value = .null ∧ ¬ type.HasDefault ∨ type = .guid ∧ value.IsNilGuid) := by
  by_cases missing : value = .null
  · subst missing
    obtain rfl : storeNull type = raw := Except.ok.inj stored
    rcases storeNull_type codec type with ⟨isNull, none⟩ | ⟨typed, default⟩
    · exact .inl ⟨isNull, .inl ⟨rfl, none⟩⟩
    · refine .inr ⟨typed, ?_⟩
      rintro (⟨_, none⟩ | ⟨_, isNil⟩)
      · exact none default
      · cases isNil
  · have there : value.isNull = false := by
      cases value with
      | null => exact absurd rfl missing
      | _ => rfl
    rw [store, there, if_neg Bool.false_ne_true] at stored
    by_cases isGuid : type = .guid
    · subst isGuid
      obtain ⟨id, rfl, isNil⟩ := storeValue_guid stored
      rcases type_of_storeGuid codec id with ⟨isNull, zero⟩ | ⟨typed, notZero⟩
      · exact .inl ⟨isNull, .inr ⟨rfl, isNil.2 zero⟩⟩
      · refine .inr ⟨typed, ?_⟩
        rintro (⟨same, _⟩ | ⟨_, nil⟩)
        · exact missing same
        · exact notZero (isNil.1 nil)
    · refine .inr ⟨type_of_storeValue isGuid stored, ?_⟩
      rintro (⟨same, _⟩ | ⟨same, _⟩)
      · exact missing same
      · exact isGuid same

/-- A column holds values of the type that is declared for it, or nulls. A null stands for a missing value
where the type has no default, and for the identifier of zeros. -/
theorem stored_as_declared (codec : Codec) (encoders : Encoders) (type : FieldType) (compress : Bool) :
    (∀ value raw column, codec.toDatabase encoders value type compress = .ok (raw, column) →
        column = codec.storedType type ∧ (raw = .null ∨ raw.type = column) ∧
          (raw = .null ↔
            value = .null ∧ ¬ type.HasDefault ∨ type = .guid ∧ value.IsNilGuid)) ∧
      ∃ raw value, codec.toDatabase encoders .null type compress = .ok (raw, codec.storedType type) ∧
        codec.fromDatabase raw type = .ok value ∧ codec.fromDatabase .null type = .ok value := by
  refine ⟨fun value raw column stored => ?_, storeNull type, loadNull type, rfl, ?_, rfl⟩
  · unfold toDatabase at stored
    split at stored
    · rename_i kept rule
      cases stored
      rcases type_of_store rule with ⟨isNull, missing⟩ | ⟨typed, there⟩
      · exact ⟨rfl, .inl isNull, iff_of_true isNull missing⟩
      · refine ⟨rfl, .inr typed, iff_of_false ?_ there⟩
        rintro rfl
        exact storedType_ne_null codec type typed.symm
    · cases stored
  · simp only [fromDatabase, load_storeNull]

/-- Zeros in the form of a text are no identifier, even where other identifiers are stored as bytes. -/
theorem stored_as_declared_of_nil_text :
    let codec : Codec := ⟨.mixedEndianBytes, .fixedWidth 8⟩
    let zeros : Value := .string "00000000-0000-0000-0000-000000000000"
    codec.toDatabase .stored zeros .guid false = .ok (.null, .bytes) ∧ zeros.IsNilGuid := by
  intro codec zeros
  have stored : codec.toDatabase .stored zeros .guid false = .ok (.null, .bytes) := by rfl
  obtain ⟨_, _, asked⟩ := (stored_as_declared codec .stored .guid false).1 _ _ _ stored
  refine ⟨stored, ?_⟩
  rcases asked.1 rfl with ⟨missing, _⟩ | ⟨_, isNil⟩
  · exact absurd (congrArg Value.isNull missing) Bool.false_ne_true
  · exact isNil

end Codec

end PortableSql
