import PortableSql.Proofs.Number.IntegerText
import PortableSql.Proofs.Value.RoundTrip

/-!
# Whole numbers keep their value

A type of whole numbers takes a number of any shape exactly if the number is whole and in the range of the
type, in both directions, and what comes out is the same number in the type's own shape. The rules check
the range on a form of 128 bits. Only text holds whole numbers that have no room there, and what is read
of such a text is never mistaken for a number in the range of a type.
-/
namespace PortableSql

open Number

/-- A decimal is exactly a whole number. -/
def Number.Decimal.IsWhole (d : Decimal) (n : Int) : Prop :=
  (if d.negative then -(d.mantissa : Int) else d.mantissa) = n * (tenPow d.scale : Nat)

/-- The types whose values are whole numbers, each with its column and with the least and the greatest of
its numbers. -/
inductive FieldType.HasIntegers : FieldType → StoredType → Int → Int → Prop
  | u8 : HasIntegers .u8 .u8 0 255
  | i16 : HasIntegers .i16 .i16 (-32768) 32767
  | i32 : HasIntegers .i32 .i32 (-2147483648) 2147483647
  | i64 : HasIntegers .i64 .i64 (-9223372036854775808) 9223372036854775807
  | enum (name : String) : HasIntegers (.enum name) .i32 (-2147483648) 2147483647

/-- A value is exactly a whole number. -/
inductive Value.Carries : Value → Int → Prop
  | u8 (n : UInt8) : Carries (.u8 n) n.toNat
  | i16 (n : Int16) : Carries (.i16 n) n.toInt
  | i32 (n : Int32) : Carries (.i32 n) n.toInt
  | i64 (n : Int64) : Carries (.i64 n) n.toInt
  | enum (n : Int32) : Carries (.enum n) n.toInt
  | decimal {d : Decimal} {n : Int} (whole : d.IsWhole n) : Carries (.decimal d) n

/-- A stored value is exactly a whole number, or is text that denotes one. -/
inductive StoredValue.Carries : StoredValue → Int → Prop
  | u8 (n : UInt8) : Carries (.u8 n) n.toNat
  | i16 (n : Int16) : Carries (.i16 n) n.toInt
  | i32 (n : Int32) : Carries (.i32 n) n.toInt
  | i64 (n : Int64) : Carries (.i64 n) n.toInt
  | bool (b : Bool) : Carries (.bool b) (if b then 1 else 0)
  | decimal {d : Decimal} {n : Int} (whole : d.IsWhole n) : Carries (.decimal d) n
  | text {s : String} {n : Int} (literal : IsIntegerLiteral s.toList n) : Carries (.text s) n

theorem Value.Carries.of_eq {value : Value} {m n : Int} (carries : value.Carries m) (same : m = n) :
    value.Carries n := by
  rwa [← same]

theorem StoredValue.Carries.of_eq {raw : StoredValue} {m n : Int} (carries : raw.Carries m)
    (same : m = n) : raw.Carries n := by
  rwa [← same]

/-! ## Numbers of any shape -/

namespace Number

theorem Decimal.toInt?_of_isWhole {d : Decimal} {n : Int} (whole : d.IsWhole n) :
    d.toInt? = some n := by
  have positive : 0 < tenPow d.scale := Nat.pow_pos (by decide)
  have magnitude : d.mantissa = n.natAbs * tenPow d.scale := by
    have size := congrArg Int.natAbs whole
    rw [Int.natAbs_mul, Int.natAbs_natCast] at size
    split at size <;> simpa using size
  unfold toInt?
  rw [magnitude, Nat.mul_mod_left, if_pos rfl, Nat.mul_div_cancel _ positive]
  unfold IsWhole at whole
  have scale : (0 : Int) < (tenPow d.scale : Nat) := Int.natCast_pos.2 positive
  split at whole
  · rename_i negative
    have sign : n ≤ 0 := by
      by_contra above
      have := Int.mul_pos (Int.not_le.1 above) scale
      omega
    simp only [negative, if_true, Option.some.injEq]
    omega
  · rename_i negative
    have sign : 0 ≤ n := by
      by_contra below
      have := Int.mul_neg_of_neg_of_pos (Int.not_le.1 below) scale
      omega
    simp only [negative, Bool.false_eq_true, if_false, Option.some.injEq]
    omega

theorem Decimal.isWhole_of_toInt? {d : Decimal} {n : Int} (found : d.toInt? = some n) :
    d.IsWhole n := by
  unfold toInt? at found
  split at found
  · rename_i none
    have magnitude := Nat.div_mul_cancel (Nat.dvd_of_mod_eq_zero none)
    simp only [Option.some.injEq] at found
    unfold IsWhole
    rw [← found]
    split
    · rw [Int.neg_mul, ← Int.natCast_mul, magnitude]
    · rw [← Int.natCast_mul, magnitude]
  · cases found

/-- A number is known to be a whole number, or is no number within 128 bits but for the least one there. -/
def AnyNumber.StandsFor (number : AnyNumber) (n : Int) : Prop :=
  number.toInt? = some n ∨ inWideRange n = false ∧
    ∀ i, number.toInt? = some i → i = -170141183460469231731687303715884105728

section
variable {number : AnyNumber} {n low high : Int}

/-- In a range that lies within 128 bits, what stands for a whole number is that number. -/
theorem AnyNumber.StandsFor.toInt?_eq_some (stands : number.StandsFor n)
    (wide : -170141183460469231731687303715884105728 < low ∧
      high ≤ 170141183460469231731687303715884105727)
    (inside : low ≤ n ∧ n ≤ high) : number.toInt? = some n := by
  rcases stands with whole | ⟨noRoom, -⟩
  · exact whole
  · simp only [inWideRange, Bool.and_eq_false_iff, decide_eq_false_iff_not] at noRoom
    omega

/-- What stands for a number outside of such a range is no number in it. -/
theorem AnyNumber.StandsFor.outside (stands : number.StandsFor n)
    (wide : -170141183460469231731687303715884105728 < low ∧
      high ≤ 170141183460469231731687303715884105727)
    (away : ¬ (low ≤ n ∧ n ≤ high)) {i : Int} (found : number.toInt? = some i) :
    ¬ (low ≤ i ∧ i ≤ high) := by
  rcases stands with whole | ⟨-, least⟩
  · rw [found] at whole
    cases whole
    exact away
  · have := least i found
    omega

end

end Number

theorem Value.Carries.number {value : Value} {n : Int} (carries : value.Carries n) :
    ∃ number, value.number? = some number ∧ number.StandsFor n := by
  cases carries with
  | decimal whole => exact ⟨_, rfl, .inl (Decimal.toInt?_of_isWhole whole)⟩
  | _ => exact ⟨_, rfl, .inl rfl⟩

theorem StoredValue.Carries.number {raw : StoredValue} {n : Int} (carries : raw.Carries n) :
    ∃ number, raw.number? = some number ∧ number.StandsFor n := by
  cases carries with
  | decimal whole => exact ⟨_, rfl, .inl (Decimal.toInt?_of_isWhole whole)⟩
  | text literal =>
    obtain ⟨number, read, exact, long⟩ := AnyNumber.read_literal literal
    refine ⟨number, read, ?_⟩
    by_cases room : inWideRange n = true
    · exact .inl (exact room)
    · have noRoom := Bool.eq_false_iff.2 room
      exact .inr ⟨noRoom, long noRoom⟩
  | _ => exact ⟨_, rfl, .inl rfl⟩

namespace Codec

/-! ## One number in one type -/

section
variable {type : FieldType} {column : StoredType} {low high n : Int} {number : AnyNumber}

theorem wide_of_hasIntegers (has : type.HasIntegers column low high) :
    -170141183460469231731687303715884105728 < low ∧
      high ≤ 170141183460469231731687303715884105727 := by
  cases has <;> decide

theorem integral_of_standsFor (has : type.HasIntegers column low high)
    (stands : number.StandsFor n) (inside : low ≤ n ∧ n ≤ high) :
    integral type low high number = .ok n := by
  have whole := stands.toInt?_eq_some (wide_of_hasIntegers has) inside
  simp only [integral, whole, inside, and_self, if_true]

theorem integral_eq_error (has : type.HasIntegers column low high)
    (stands : number.StandsFor n) (outside : ¬ (low ≤ n ∧ n ≤ high)) :
    ∃ fault, integral type low high number = .error fault := by
  unfold integral
  cases found : number.toInt? with
  | none => exact ⟨_, rfl⟩
  | some i => exact ⟨_, if_neg (stands.outside (wide_of_hasIntegers has) outside found)⟩

/-- A number that has no whole value is in no type of whole numbers. -/
theorem integral_of_none (none : number.toInt? = none) :
    integral type low high number = .error (.notIntegral number type) := by
  simp only [integral, none]

/-- Each type stores a number in its range in its own column, and there it is the same number. -/
theorem storeNumber_integral (has : type.HasIntegers column low high)
    (inside : low ≤ n ∧ n ≤ high) (found : integral type low high number = .ok n) :
    ∃ raw, storeNumber type number = .ok raw ∧ raw.type = column ∧ raw.Carries n ∧
      (type.isNumeric = true → type.Owns (loadNumber raw) ∧ (loadNumber raw).Carries n) := by
  cases has with
  | u8 =>
    have same : ((UInt8.ofNat n.toNat).toNat : Int) = n := by
      rw [UInt8.toNat_ofNat']
      omega
    refine ⟨.u8 (UInt8.ofNat n.toNat), ?_, rfl, .of_eq (.u8 _) same,
      fun _ => ⟨.u8 _, .of_eq (.u8 _) same⟩⟩
    simp only [storeNumber, found, Except.map]
  | i16 =>
    have same : (Int16.ofInt n).toInt = n := Int16.toInt_ofInt_of_le inside.1 (by omega)
    refine ⟨.i16 (Int16.ofInt n), ?_, rfl, .of_eq (.i16 _) same,
      fun _ => ⟨.i16 _, .of_eq (.i16 _) same⟩⟩
    simp only [storeNumber, found, Except.map]
  | i32 =>
    have same : (Int32.ofInt n).toInt = n := Int32.toInt_ofInt_of_le inside.1 (by omega)
    refine ⟨.i32 (Int32.ofInt n), ?_, rfl, .of_eq (.i32 _) same,
      fun _ => ⟨.i32 _, .of_eq (.i32 _) same⟩⟩
    simp only [storeNumber, found, Except.map]
  | i64 =>
    have same : (Int64.ofInt n).toInt = n := Int64.toInt_ofInt_of_le inside.1 (by omega)
    refine ⟨.i64 (Int64.ofInt n), ?_, rfl, .of_eq (.i64 _) same,
      fun _ => ⟨.i64 _, .of_eq (.i64 _) same⟩⟩
    simp only [storeNumber, found, Except.map]
  | enum name =>
    have same : (Int32.ofInt n).toInt = n := Int32.toInt_ofInt_of_le inside.1 (by omega)
    refine ⟨.i32 (Int32.ofInt n), ?_, rfl, .of_eq (.i32 _) same,
      fun numeric => by cases numeric⟩
    simp only [storeNumber, found, Except.map]

theorem storeNumber_error (has : type.HasIntegers column low high) {fault : ConversionFault}
    (failed : integral type low high number = .error fault) :
    storeNumber type number = .error fault := by
  cases has <;> simp only [storeNumber, failed, Except.map]

/-! ## The rules of the types -/

theorem store_number (codec : Codec) (encoders : Encoders) (has : type.HasIntegers column low high)
    {value : Value} (shape : value.number? = some number) (compress : Bool) :
    codec.store encoders type compress value = storeNumber type number := by
  cases value with
  | u8 | i16 | i32 | i64 | f32 | f64 | decimal | enum =>
    cases shape
    cases has <;> rfl
  | _ => cases shape

theorem storedType_of_hasIntegers (codec : Codec) (has : type.HasIntegers column low high) :
    codec.storedType type = column := by
  cases has <;> rfl

theorem toDatabase_ok (codec : Codec) (encoders : Encoders) (has : type.HasIntegers column low high)
    {value : Value} (shape : value.number? = some number) (compress : Bool) (inside : low ≤ n ∧ n ≤ high)
    (found : integral type low high number = .ok n) :
    ∃ raw, codec.toDatabase encoders value type compress = .ok (raw, column) ∧ raw.type = column ∧
      raw.Carries n := by
  obtain ⟨raw, stored, width, carries, -⟩ := storeNumber_integral has inside found
  refine ⟨raw, ?_, width, carries⟩
  simp only [toDatabase, store_number codec encoders has shape, stored, storedType_of_hasIntegers codec has]

theorem toDatabase_error (codec : Codec) (encoders : Encoders) (has : type.HasIntegers column low high)
    {value : Value} (shape : value.number? = some number) (compress : Bool) {fault : ConversionFault}
    (failed : integral type low high number = .error fault) :
    codec.toDatabase encoders value type compress = .error ⟨.toDatabase, type, column, fault⟩ := by
  simp only [toDatabase, store_number codec encoders has shape, storeNumber_error has failed,
    storedType_of_hasIntegers codec has]

theorem load_number (codec : Codec) {raw : StoredValue} (shape : raw.number? = some number) :
    codec.load type raw = codec.loadValue type raw := by
  have there : raw.type ≠ .null := by
    cases raw with
    | null => cases shape
    | _ => exact nofun
  rw [load, if_neg there]

theorem fromDatabase_ok (codec : Codec) (has : type.HasIntegers column low high)
    {raw : StoredValue} (shape : raw.number? = some number) (inside : low ≤ n ∧ n ≤ high)
    (found : integral type low high number = .ok n) :
    ∃ value, codec.fromDatabase raw type = .ok value ∧ type.Owns value ∧ value.Carries n := by
  obtain ⟨kept, stored, -, -, own⟩ := storeNumber_integral has inside found
  simp only [fromDatabase, load_number codec shape]
  by_cases numeric : type.isNumeric = true
  · refine ⟨loadNumber kept, ?_, own numeric⟩
    rw [loadValue_numeric codec numeric, withNumber, shape]
    simp only [stored, Except.map]
  · cases has with
    | enum name =>
      have same : (Int32.ofInt n).toInt = n := Int32.toInt_ofInt_of_le inside.1 (by omega)
      refine ⟨.enum (Int32.ofInt n), ?_, .enum name _, .of_eq (.enum _) same⟩
      simp only [loadValue, withNumber, shape, found, Except.map]
    | _ => exact absurd rfl numeric

theorem fromDatabase_error (codec : Codec) (has : type.HasIntegers column low high)
    {raw : StoredValue} (shape : raw.number? = some number) {fault : ConversionFault}
    (failed : integral type low high number = .error fault) :
    codec.fromDatabase raw type = .error ⟨.fromDatabase, type, raw.type, fault⟩ := by
  simp only [fromDatabase, load_number codec shape]
  by_cases numeric : type.isNumeric = true
  · rw [loadValue_numeric codec numeric, withNumber, shape]
    simp only [storeNumber_error has failed, Except.map]
  · cases has with
    | enum name => simp only [loadValue, withNumber, shape, failed, Except.map]
    | _ => exact absurd rfl numeric

end

/-- What is right exactly under a condition, and then has a property. -/
private theorem ok_exactly {ε α : Type} {result : Except ε α} {P : Prop} {Q : α → Prop}
    (good : P → ∃ a, result = .ok a ∧ Q a) (bad : ¬ P → ∃ e, result = .error e) :
    ((∃ a, result = .ok a) ↔ P) ∧ ∀ a, result = .ok a → Q a := by
  by_cases holds : P
  · obtain ⟨a, rfl, property⟩ := good holds
    refine ⟨iff_of_true ⟨a, rfl⟩ holds, fun b same => ?_⟩
    cases same
    exact property
  · obtain ⟨e, rfl⟩ := bad holds
    exact ⟨iff_of_false nofun holds, nofun⟩

/-- A type of whole numbers takes exactly the whole numbers in its range, from every shape and into every
shape, and leaves their value as it is. A decimal that is no whole number is an error. -/
theorem converts_integers_exactly (codec : Codec) (encoders : Encoders) {type : FieldType} {column : StoredType}
    {low high : Int} (has : type.HasIntegers column low high) (compress : Bool) :
    (∀ value n, value.Carries n →
      ((∃ stored, codec.toDatabase encoders value type compress = .ok stored) ↔ low ≤ n ∧ n ≤ high) ∧
      ∀ raw width, codec.toDatabase encoders value type compress = .ok (raw, width) →
        width = column ∧ raw.type = column ∧ raw.Carries n) ∧
    (∀ raw n, raw.Carries n →
      ((∃ value, codec.fromDatabase raw type = .ok value) ↔ low ≤ n ∧ n ≤ high) ∧
      ∀ value, codec.fromDatabase raw type = .ok value → type.Owns value ∧ value.Carries n) ∧
    ∀ d : Decimal, (∀ n, ¬ d.IsWhole n) →
      (∃ e, codec.toDatabase encoders (.decimal d) type compress = .error e) ∧
      ∃ e, codec.fromDatabase (.decimal d) type = .error e := by
  refine ⟨fun value n carries => ?_, fun raw n carries => ?_, fun d fraction => ?_⟩
  · obtain ⟨number, shape, stands⟩ := carries.number
    have exactly : ((∃ stored, codec.toDatabase encoders value type compress = .ok stored) ↔
        low ≤ n ∧ n ≤ high) ∧ ∀ stored, codec.toDatabase encoders value type compress = .ok stored →
          stored.2 = column ∧ stored.1.type = column ∧ stored.1.Carries n := by
      refine ok_exactly (fun inside => ?_) (fun outside => ?_)
      · obtain ⟨raw, stored, kept⟩ := toDatabase_ok codec encoders has shape compress inside
          (integral_of_standsFor has stands inside)
        exact ⟨_, stored, rfl, kept⟩
      · obtain ⟨fault, failed⟩ := integral_eq_error has stands outside
        exact ⟨_, toDatabase_error codec encoders has shape compress failed⟩
    exact ⟨exactly.1, fun raw width stored => exactly.2 (raw, width) stored⟩
  · obtain ⟨number, shape, stands⟩ := carries.number
    refine ok_exactly (fun inside => ?_) (fun outside => ?_)
    · exact fromDatabase_ok codec has shape inside (integral_of_standsFor has stands inside)
    · obtain ⟨fault, failed⟩ := integral_eq_error has stands outside
      exact ⟨_, fromDatabase_error codec has shape failed⟩
  · have none : d.toInt? = none := by
      cases found : d.toInt? with
      | none => rfl
      | some n => exact absurd (Decimal.isWhole_of_toInt? found) (fraction n)
    have failed : integral type low high (.decimal d) = .error (.notIntegral (.decimal d) type) :=
      integral_of_none none
    exact ⟨⟨_, toDatabase_error codec encoders has rfl compress failed⟩,
      ⟨_, fromDatabase_error codec has rfl failed⟩⟩

/-- Leading zeros count for nothing in a long text, and a long number is out of every range. -/
theorem converts_integers_exactly_of_long_text :
    let codec : Codec := ⟨.native, .unbounded⟩
    (∃ value, codec.fromDatabase (.text " +0000000000000000000000000000000000000000255\n") .u8
        = .ok value ∧ value.Carries 255) ∧
      ¬ ∃ value, codec.fromDatabase (.text "-10000000000000000000000000000000000000000") .i64
        = .ok value := by
  intro codec
  have padded : IsIntegerLiteral
      " +0000000000000000000000000000000000000000255\n".toList 255 :=
    ⟨[' '], ['+'], "0000000000000000000000000000000000000000255".toList, ['\n'], by decide,
      by decide, by decide, by decide, List.all_eq_true.1 (by decide), .inl ⟨.inr rfl, by decide⟩⟩
  have long : IsIntegerLiteral "-10000000000000000000000000000000000000000".toList
      (-10000000000000000000000000000000000000000) :=
    ⟨[], ['-'], "10000000000000000000000000000000000000000".toList, [], by decide,
      by decide, by decide, by decide, List.all_eq_true.1 (by decide), .inr ⟨rfl, by decide⟩⟩
  constructor
  · obtain ⟨taken, same⟩ := (converts_integers_exactly codec .stored .u8 false).2.1 _ _ (.text padded)
    obtain ⟨value, loaded⟩ := taken.2 (by decide)
    exact ⟨value, loaded, (same value loaded).2⟩
  · have taken := ((converts_integers_exactly codec .stored .i64 false).2.1 _ _ (.text long)).1
    exact fun loaded => absurd (taken.1 loaded) (by decide)

end Codec

end PortableSql
