import PortableSql.Number.Basic
import PortableSql.Proofs.Number.Widening
import PortableSql.Proofs.Text.Digits

/-!
# Whole numbers as text

Text is read as a whole number, a decimal or a binary number, whichever comes first. An integer literal
of any length is some number in this way. One with room in 128 bits is read exactly. A longer one has
no room in a decimal either, and becomes a binary number that rounding has not brought back below the
power of two that the literal passed (`read_literal`).
-/
namespace PortableSql.Number

open Text

/-! ## Rounding stays above a power of two -/

namespace Format

/-- A number from a power of two on is not rounded below it. -/
theorem le_roundQuotient (f : Format) {m k : Nat} (normal : f.leastExponent ≤ k)
    (precise : 1 ≤ f.precision) (large : f.fractions * twoPow k ≤ m) :
    min (((k - f.leastExponent).toNat + 1) * f.fractions) f.infinityBits ≤ f.roundQuotient m 1 := by
  have positive : 0 < f.fractions * twoPow k := Nat.mul_pos f.fractions_pos (twoPow_pos k)
  have nonzero : m ≠ 0 := by omega
  have whole := f.roundQuotient_twoPow 0 0 nonzero
  simp only [twoPow_zero, Nat.mul_one, Int.ofNat_zero, Int.sub_zero, Nat.zero_add] at whole
  -- the place of the last bit, counted from the length of the number
  have length : f.precision - 1 + k ≤ m.log2 := by
    rw [Nat.le_log2 nonzero, Nat.pow_add]
    exact large
  have place : f.lastPlace m 0 = ((m.log2 + 1 - f.precision : Nat) : Int) := by
    unfold lastPlace
    omega
  have full : f.fractions ≤ roundedQuotient m (twoPow (m.log2 + 1 - f.precision)) := by
    have below : f.fractions ≤ m / twoPow (m.log2 + 1 - f.precision) := by
      rw [Nat.le_div_iff_mul_le (twoPow_pos _), fractions, ← twoPow_add]
      have same : f.precision - 1 + (m.log2 + 1 - f.precision) = m.log2 := by omega
      rw [same]
      exact Nat.log2_self_le nonzero
    unfold roundedQuotient
    dsimp only
    split_ifs <;> omega
  rw [whole, place]
  have unscaled : (-((m.log2 + 1 - f.precision : Nat) : Int)).toNat = 0 := by omega
  have scaled : ((m.log2 + 1 - f.precision : Nat) : Int).toNat = m.log2 + 1 - f.precision := by omega
  rw [unscaled, scaled, twoPow_zero, Nat.mul_one]
  have rows : (k - f.leastExponent).toNat
      ≤ (((m.log2 + 1 - f.precision : Nat) : Int) - f.leastExponent).toNat := by omega
  have more := Nat.mul_le_mul_right f.fractions rows
  rw [Nat.add_mul, Nat.one_mul]
  omega

/-- The bits of a finite number are below those of infinity. -/
theorem IsCanonical.bits_lt {f : Format} {m : Nat} {e : Int} (h : f.IsCanonical m e) :
    (e - f.leastExponent).toNat * f.fractions + m < f.infinityBits := by
  have rows : (e - f.leastExponent).toNat + 2 ≤ f.exponents - 1 := by
    have := h.least
    have := h.greatest
    omega
  have more := Nat.mul_le_mul_right f.fractions rows
  have below := h.below
  rw [Nat.add_mul] at more
  unfold infinityBits
  omega

/-- What a whole number from a power of two on is rounded to is infinite, or is not below that power. -/
theorem le_of_decode_encodeQuotient {f : Format} (hf : f.IsProper) {m k mantissa : Nat}
    {negative sign : Bool} {e : Int} (normal : f.leastExponent ≤ k)
    (large : f.fractions * twoPow k ≤ m)
    (meaning : f.decode (f.encodeQuotient negative m 1) = .finite sign mantissa e) :
    (k : Int) ≤ e ∧ f.fractions ≤ mantissa := by
  have top := f.infinityBits_add_fractions
  have atMost := f.roundQuotient_le m 1
  have atLeast := f.le_roundQuotient normal hf.precision large
  have few := f.fractions_pos
  have fits : f.encodeQuotient negative m 1 < 2 * f.signBit := by
    unfold encodeQuotient
    split <;> omega
  obtain ⟨canonical, bits⟩ := isCanonical_of_decode hf fits meaning
  have finite := canonical.bits_lt
  have unsigned : f.roundQuotient m 1 = (e - f.leastExponent).toNat * f.fractions + mantissa := by
    unfold encodeQuotient at bits
    split at bits <;> split at bits <;> omega
  have bound : ((k - f.leastExponent).toNat + 1) * f.fractions
      ≤ (e - f.leastExponent).toNat * f.fractions + mantissa := by omega
  have least := canonical.least
  have below := canonical.below
  rw [Nat.add_mul, Nat.one_mul] at bound
  have rows : (k - f.leastExponent).toNat ≤ (e - f.leastExponent).toNat := by
    by_contra fewer
    have := Nat.mul_le_mul_right f.fractions (Nat.lt_of_not_le fewer)
    rw [Nat.succ_mul] at this
    omega
  refine ⟨by omega, ?_⟩
  rcases canonical.full with atLeastExponent | full
  · have none : (e - f.leastExponent).toNat = 0 := by omega
    rw [none] at bound
    omega
  · exact full

end Format

/-- A whole number without room in 128 bits has none there when it is rounded, unless it is the least of
them. -/
theorem AnyNumber.toInt?_ofQuotient {negative : Bool} {m : Nat} {n : Int}
    (large : 170141183460469231731687303715884105728 ≤ m)
    (whole : (AnyNumber.binary (.ofQuotient negative m 1)).toInt? = some n) :
    n = -170141183460469231731687303715884105728 := by
  simp only [AnyNumber.toInt?, Option.filter_eq_some_iff] at whole
  obtain ⟨whole, room⟩ := whole
  have atMost := doubleFormat.roundQuotient_le m 1
  have fits : doubleFormat.encodeQuotient negative m 1 < 2 ^ 64 := by
    have infinity : doubleFormat.infinityBits = 9218868437227405312 := by decide
    have sign : doubleFormat.signBit = 9223372036854775808 := by decide
    unfold Format.encodeQuotient
    split <;> omega
  have bits : (Double.ofQuotient negative m 1).meaning
      = doubleFormat.decode (doubleFormat.encodeQuotient negative m 1) := by
    rw [Double.meaning, Double.ofQuotient, UInt64.toNat_ofNat', Nat.mod_eq_of_lt fits]
  unfold Double.toInt? at whole
  rw [bits] at whole
  cases meaning : doubleFormat.decode (doubleFormat.encodeQuotient negative m 1) with
  | nan => simp [meaning] at whole
  | infinite sign => simp [meaning] at whole
  | finite sign mantissa e =>
    obtain ⟨exponent, full⟩ := Format.le_of_decode_encodeQuotient doubleFormat_isProper
      (k := 75) (by decide) large meaning
    have magnitude : 170141183460469231731687303715884105728 ≤ mantissa * twoPow e.toNat := by
      have power : twoPow 75 ≤ twoPow e.toNat := Nat.pow_le_pow_right (by decide) (by omega)
      exact Nat.mul_le_mul full power
    have above : 0 ≤ e := by omega
    simp only [meaning, above, if_true, Option.some.injEq] at whole
    simp only [inWideRange, Bool.and_eq_true, decide_eq_true_eq] at room
    split at whole <;> omega

/-- What is infinite is no whole number. -/
theorem Double.toInt?_of_infinite {x : Double} {negative : Bool}
    (infinite : x.meaning = .infinite negative) : x.toInt? = none := by
  simp only [toInt?, infinite]

/-- Neither has one with more digits than any binary number. -/
theorem AnyNumber.toInt?_scaledDouble {negative : Bool} {m : Nat} {n : Int}
    (large : 170141183460469231731687303715884105728 ≤ m)
    (whole : (AnyNumber.binary (scaledDouble negative m 0)).toInt? = some n) :
    n = -170141183460469231731687303715884105728 := by
  have nonzero : m ≠ 0 := by
    rintro rfl
    exact absurd large (by decide)
  unfold scaledDouble at whole
  generalize digitCount m = count at whole
  dsimp only at whole
  have long : ¬ ((count : Int) + 0 < -400) := by omega
  rw [if_neg (not_or.2 ⟨nonzero, long⟩)] at whole
  split at whole
  · have infinite : (Double.ofMeaning (.infinite negative)).meaning = .infinite negative :=
      (Double.meaning_ofMeaning _).trans
        (Format.decode_encode_infinite doubleFormat_isProper negative)
    unfold AnyNumber.toInt? at whole
    dsimp only at whole
    rw [Double.toInt?_of_infinite infinite] at whole
    cases whole
  · rw [if_pos (Int.le_refl 0), Int.toNat_zero, tenPow_zero, Nat.mul_one] at whole
    exact toInt?_ofQuotient large whole

/-! ## Literals -/

/-- The number that digits denote: each counts ten times what the next one counts. -/
def placeValue (digits : List Char) : Nat :=
  Nat.ofDigits 10 (digits.reverse.map digitValue)

/-- A text is an integer literal that denotes a number: an optional sign and digits, with any blanks
around them. -/
def IsIntegerLiteral (text : List Char) (n : Int) : Prop :=
  ∃ front sign digits back : List Char, text = front ++ (sign ++ digits) ++ back ∧
    allBlank front = true ∧ allBlank back = true ∧ digits ≠ [] ∧ (∀ d ∈ digits, isDigit d = true) ∧
    ((sign = [] ∨ sign = ['+']) ∧ n = placeValue digits ∨ sign = ['-'] ∧ n = -(placeValue digits : Int))

theorem decimalValue_eq_placeValue (digits : List Char) : decimalValue digits = placeValue digits := by
  unfold decimalValue placeValue
  rw [Nat.ofDigits_eq_foldr, List.foldr_map, List.foldr_reverse]
  simp only [Nat.cast_id, Nat.add_comm]

private theorem isBlank_of_sign {c : Char} (sign : c = '-' ∨ c = '+' ∨ isDigit c = true) :
    isBlank c = false := by
  rcases sign with rfl | rfl | digit
  · rfl
  · rfl
  · exact isBlank_of_isDigit digit

/-- The blanks around a literal are trimmed. -/
private theorem trim_literal {front body back : List Char} (blankFront : allBlank front = true)
    (blankBack : allBlank back = true) (nonempty : body ≠ [])
    (visible : ∀ c ∈ body, isBlank c = false) : trim (front ++ body ++ back) = body := by
  have whole : trim body = body := trim_of_visible visible
  have start : trimStart body = body := by
    obtain ⟨c, rest, rfl⟩ := List.exists_cons_of_ne_nil nonempty
    exact trimStart_cons_of_not_blank (visible c (by simp)) rest
  rw [trim, start] at whole
  exact trim_between blankFront blankBack nonempty start whole

/-! ## Digits as a whole number, a decimal and a binary number -/

section
variable {digits : List Char}

private theorem exists_digit (nonempty : digits ≠ []) (inside : ∀ d ∈ digits, isDigit d = true) :
    ∃ d rest, digits = d :: rest ∧ isDigit d = true ∧ d ≠ '-' ∧ d ≠ '+' := by
  obtain ⟨d, rest, rfl⟩ := List.exists_cons_of_ne_nil nonempty
  refine ⟨d, rest, rfl, inside d (by simp), ?_, ?_⟩
  · rintro rfl
    exact absurd (inside '-' (by simp)) (by decide)
  · rintro rfl
    exact absurd (inside '+' (by simp)) (by decide)

private theorem toLower_of_isDigit {d : Char} (digit : isDigit d = true) : d.toLower = d := by
  have bounds := isDigit_iff.1 digit
  have small : ¬ (d.val ≥ 'A'.val ∧ d.val ≤ 'Z'.val) := by
    rintro ⟨large, _⟩
    have : 65 ≤ d.toNat := large
    omega
  unfold Char.toLower
  rw [dif_neg small]

/-- Where the digits before the point have no room, there is no decimal. -/
private theorem readDecimalDigits_eq_none (inside : ∀ d ∈ digits, isDigit d = true) {any : Bool}
    {m : Nat} (small : m < mantissaBound)
    (large : mantissaBound ≤ digits.foldl (fun value c => 10 * value + digitValue c) m) :
    readDecimalDigits any ⟨m, none⟩ digits = none := by
  induction digits generalizing any m with
  | nil =>
    simp only [List.foldl_nil] at large
    omega
  | cons d digits ih =>
    have digit := inside d (by simp)
    unfold readDecimalDigits
    rw [if_pos digit]
    dsimp only
    split
    · rename_i room
      exact ih (fun d member => inside d (by simp [member])) room.1 large
    · rfl

private theorem readDecimal_eq_none (nonempty : digits ≠ [])
    (inside : ∀ d ∈ digits, isDigit d = true) (large : mantissaBound ≤ placeValue digits)
    {sign : List Char} (signed : sign = [] ∨ sign = ['+'] ∨ sign = ['-']) :
    Decimal.read (sign ++ digits) = none := by
  obtain ⟨d, rest, rfl, _, notMinus, notPlus⟩ := exists_digit nonempty inside
  rw [← decimalValue_eq_placeValue] at large
  have unsigned : readDecimalDigits false ⟨0, none⟩ (d :: rest) = none :=
    readDecimalDigits_eq_none inside (by decide) large
  rcases signed with rfl | rfl | rfl
  · unfold Decimal.read
    split
    · rename_i same
      exact absurd (List.cons.inj same).1 notMinus
    · rename_i same
      exact absurd (List.cons.inj same).1 notPlus
    · simp only [List.nil_append, unsigned, Option.bind_none]
  · simp only [Decimal.read, List.cons_append, List.nil_append, unsigned, Option.bind_none]
  · simp only [Decimal.read, List.cons_append, List.nil_append, unsigned, Option.bind_none]

/-- Digits with a sign are a whole number if it has room in 128 bits. -/
private theorem readWhole_literal (nonempty : digits ≠ []) (inside : ∀ d ∈ digits, isDigit d = true)
    {sign : List Char} {n : Int} (value : (sign = [] ∨ sign = ['+']) ∧ n = placeValue digits ∨
      sign = ['-'] ∧ n = -(placeValue digits : Int)) :
    readWhole (sign ++ digits) = if inWideRange n then some n else none := by
  obtain ⟨d, rest, rfl, _, notMinus, notPlus⟩ := exists_digit nonempty inside
  have all : (d :: rest).all isDigit = true := List.all_eq_true.2 inside
  rw [← decimalValue_eq_placeValue] at value
  rcases value with ⟨rfl | rfl, rfl⟩ | ⟨rfl, rfl⟩
  · unfold readWhole
    dsimp only
    split
    · rename_i same
      exact absurd (List.cons.inj same).1 notMinus
    · rename_i same
      exact absurd (List.cons.inj same).1 notPlus
    · simp [all, Option.filter]
  · simp [readWhole, all, Option.filter]
  · simp [readWhole, all, Option.filter]

/-- Digits with a sign are a binary number, which is infinite or their rounded value. -/
private theorem readDouble_literal (nonempty : digits ≠ [])
    (inside : ∀ d ∈ digits, isDigit d = true) {sign : List Char}
    (signed : sign = [] ∨ sign = ['+'] ∨ sign = ['-']) :
    ∃ negative, readDouble (sign ++ digits) =
      some (scaledDouble negative (placeValue digits) 0) := by
  obtain ⟨d, rest, rfl, digit, notMinus, notPlus⟩ := exists_digit nonempty inside
  have unsigned (negative : Bool) : readUnsignedDouble negative (d :: rest) =
      some (scaledDouble negative (placeValue (d :: rest)) 0) := by
    have noWord : ∀ word : String, word.toList.head?.all isDigit = false →
        String.ofList ((d :: rest).map Char.toLower) ≠ word := by
      rintro word different rfl
      rw [String.toList_ofList, List.map_cons, List.head?_cons, toLower_of_isDigit digit] at different
      simp [digit] at different
    have taken : (d :: rest).takeWhile isDigit = d :: rest := List.takeWhile_eq_self_iff.2 inside
    have dropped : (d :: rest).dropWhile isDigit = [] := List.dropWhile_eq_nil_iff.2 inside
    unfold readUnsignedDouble
    rw [if_neg, if_neg (noWord _ (by decide)), taken, dropped]
    · simp [readExponent, decimalValue_eq_placeValue]
    · exact not_or.2 ⟨noWord _ (by decide), noWord _ (by decide)⟩
  rcases signed with rfl | rfl | rfl
  · refine ⟨false, ?_⟩
    unfold readDouble
    split
    · rename_i same
      exact absurd (List.cons.inj same).1 notMinus
    · rename_i same
      exact absurd (List.cons.inj same).1 notPlus
    · exact unsigned false
  · exact ⟨false, unsigned false⟩
  · exact ⟨true, unsigned true⟩

end

/-- An integer literal is read as the number that it denotes if that has room in 128 bits, and else as a
number that is no whole number, or the least that has room there. -/
theorem AnyNumber.read_literal {text : List Char} {n : Int} (literal : IsIntegerLiteral text n) :
    ∃ number, AnyNumber.read text = some number ∧ (inWideRange n = true → number.toInt? = some n) ∧
      (inWideRange n = false →
        ∀ i, number.toInt? = some i → i = -170141183460469231731687303715884105728) := by
  obtain ⟨front, sign, digits, back, rfl, blankFront, blankBack, nonempty, inside, value⟩ := literal
  have signed : sign = [] ∨ sign = ['+'] ∨ sign = ['-'] := by tauto
  have trimmed : trim (front ++ (sign ++ digits) ++ back) = sign ++ digits := by
    apply trim_literal blankFront blankBack (by simp [nonempty])
    intro c member
    apply isBlank_of_sign
    rcases List.mem_append.1 member with among | among
    · rcases signed with rfl | rfl | rfl <;> simp_all
    · exact .inr (.inr (inside c among))
  have whole := readWhole_literal nonempty inside value
  unfold read
  dsimp only
  rw [trimmed, whole]
  by_cases room : inWideRange n = true
  · refine ⟨.whole n, by simp [room], fun _ => rfl, fun narrow => ?_⟩
    rw [room] at narrow
    cases narrow
  · have large : 170141183460469231731687303715884105728 ≤ placeValue digits := by
      simp only [inWideRange, Bool.and_eq_true, decide_eq_true_eq] at room
      omega
    have noDecimal := readDecimal_eq_none nonempty inside
      (Nat.le_trans (by decide) large) signed
    obtain ⟨negative, double⟩ := readDouble_literal nonempty inside signed
    refine ⟨.binary (scaledDouble negative (placeValue digits) 0), ?_, ?_, ?_⟩
    · simp [room, noDecimal, double]
    · intro wide
      exact absurd wide room
    · intro _ i found
      exact toInt?_scaledDouble large found

end PortableSql.Number
