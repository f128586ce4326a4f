import PortableSql.Proofs.Number.Scaling

/-!
# Widening and narrowing

Binary numbers and what their bits mean. The bits are three fields; a finite number stands in a canonical
form, with the least exponent or with a mantissa of full length, and in that form decoding and encoding
undo each other. A number of 32 bits has a canonical form of 64 bits, so widening loses nothing and
rounding back finds it again.
-/
namespace PortableSql.Number

namespace Format

/-- Whether a format has room for numbers of full length between zero and infinity. -/
structure IsProper (f : Format) : Prop where
  precision : 1 ≤ f.precision
  exponentBits : 2 ≤ f.exponentBits

theorem IsProper.two_mul_fractions {f : Format} (hf : f.IsProper) :
    2 * f.fractions = twoPow f.precision := by
  have split : f.precision = f.precision - 1 + 1 := by have := hf.precision; omega
  rw [fractions, split, twoPow_succ, Nat.mul_comm]
  rfl

theorem IsProper.four_le_exponents {f : Format} (hf : f.IsProper) : 4 ≤ f.exponents :=
  Nat.pow_le_pow_right (show 0 < 2 by decide) hf.exponentBits

theorem fractions_pos (f : Format) : 0 < f.fractions :=
  twoPow_pos _

/-- The form in which the bits of a finite number give it: the exponent is the least, or the mantissa has
its full length. -/
structure IsCanonical (f : Format) (mantissa : Nat) (exponent : Int) : Prop where
  least : f.leastExponent ≤ exponent
  greatest : exponent < f.leastExponent + f.exponents - 2
  below : mantissa < 2 * f.fractions
  full : exponent = f.leastExponent ∨ f.fractions ≤ mantissa

theorem IsCanonical.lastPlace {f : Format} {m : Nat} {e : Int} (h : f.IsCanonical m e)
    (hf : f.IsProper) (hm : m ≠ 0) : f.lastPlace m e = e := by
  have below : m.log2 < f.precision := by
    have := h.below
    rw [hf.two_mul_fractions] at this
    exact (Nat.log2_lt hm).mpr this
  have least := h.least
  unfold Format.lastPlace
  rcases h.full with he | full
  · omega
  · have atLeast : f.precision - 1 ≤ m.log2 := (Nat.le_log2 hm).mpr full
    omega

theorem IsCanonical.encodeScaled {f : Format} {m : Nat} {e : Int} (h : f.IsCanonical m e)
    (hf : f.IsProper) (negative : Bool) :
    f.encodeScaled negative m e
      = (if negative then f.signBit else 0) + ((e - f.leastExponent).toNat * f.fractions + m) := by
  by_cases hm : m = 0
  · have atLeast : e = f.leastExponent := by
      have := f.fractions_pos
      rcases h.full with he | full
      · exact he
      · omega
    simp [hm, encodeScaled_zero, atLeast]
  · have whole : roundedQuotient (m * twoPow (e.toNat + (-e).toNat)) (twoPow ((-e).toNat + e.toNat))
        = m := by
      rw [Nat.add_comm e.toNat]
      exact roundedQuotient_mul_self _ _ (twoPow_pos _)
    have finite : (e - f.leastExponent).toNat * f.fractions + m ≤ f.infinityBits := by
      have many := hf.four_le_exponents
      have greatest := h.greatest
      have below := h.below
      have rows : (e - f.leastExponent).toNat + 2 ≤ f.exponents - 1 := by omega
      have := Nat.mul_le_mul_right f.fractions rows
      rw [infinityBits]
      nlinarith
    rw [encodeScaled_eq f negative e hm, h.lastPlace hf hm, whole, Nat.min_eq_left finite]

/-- The bits with a sign, an exponent and a fraction in their fields. -/
def fieldBits (f : Format) (negative : Bool) (exponent fraction : Nat) : Nat :=
  (if negative then f.signBit else 0) + (exponent * f.fractions + fraction)

theorem exists_fieldBits (f : Format) {bits : Nat} (h : bits < 2 * f.signBit) :
    ∃ negative exponent fraction, exponent < f.exponents ∧ fraction < f.fractions
      ∧ bits = f.fieldBits negative exponent fraction := by
  have few := f.fractions_pos
  have signless : bits % f.signBit < f.exponents * f.fractions :=
    Nat.mod_lt _ (Nat.mul_pos (twoPow_pos _) few)
  have sign : bits / f.signBit < 2 := Nat.div_lt_of_lt_mul (by omega)
  have whole := Nat.div_add_mod bits f.signBit
  have fields := Nat.div_add_mod (bits % f.signBit) f.fractions
  refine ⟨bits / f.signBit = 1, bits % f.signBit / f.fractions, bits % f.signBit % f.fractions,
    Nat.div_lt_of_lt_mul (by rwa [Nat.mul_comm]), Nat.mod_lt _ few, ?_⟩
  rw [fieldBits, Nat.mul_comm _ f.fractions, fields]
  rcases Nat.le_one_iff_eq_zero_or_eq_one.mp (Nat.le_of_lt_succ sign) with h | h
  · rw [h] at whole ⊢
    simpa using whole.symm
  · rw [h] at whole ⊢
    simpa using whole.symm

theorem decode_fieldBits (f : Format) (negative : Bool) {exponent fraction : Nat}
    (he : exponent < f.exponents) (hf : fraction < f.fractions) :
    f.decode (f.fieldBits negative exponent fraction) =
      if exponent = f.exponents - 1 then
        if fraction = 0 then .infinite negative else .nan
      else if exponent = 0 then .finite negative fraction f.leastExponent
      else .finite negative (fraction + f.fractions) (f.leastExponent + (exponent - 1 : Nat)) := by
  have few := f.fractions_pos
  have many : 0 < f.exponents := twoPow_pos _
  obtain ⟨sign, hs, bits⟩ : ∃ sign, decide (sign % 2 = 1) = negative ∧ f.fieldBits negative exponent fraction
      = (sign * f.exponents + exponent) * f.fractions + fraction := by
    cases negative
    · exact ⟨0, rfl, by simp [fieldBits]⟩
    · exact ⟨1, rfl, by simp only [fieldBits, signBit, if_true]; ring⟩
  have quotient : ((sign * f.exponents + exponent) * f.fractions + fraction) / f.fractions
      = sign * f.exponents + exponent := by
    rw [Nat.mul_comm, Nat.mul_add_div few, Nat.div_eq_of_lt hf, Nat.add_zero]
  have remainder : ((sign * f.exponents + exponent) * f.fractions + fraction) % f.fractions
      = fraction := by
    rw [Nat.mul_comm, Nat.mul_add_mod, Nat.mod_eq_of_lt hf]
  have field : (sign * f.exponents + exponent) % f.exponents = exponent := by
    rw [Nat.mul_comm, Nat.mul_add_mod, Nat.mod_eq_of_lt he]
  have top : ((sign * f.exponents + exponent) * f.fractions + fraction) / f.signBit = sign := by
    rw [signBit, Nat.mul_comm f.exponents, ← Nat.div_div_eq_div_mul, quotient, Nat.mul_comm,
      Nat.mul_add_div many, Nat.div_eq_of_lt he, Nat.add_zero]
  simp only [decode, bits, quotient, remainder, field, top, hs]

theorem decode_encodeScaled {f : Format} {m : Nat} {e : Int} (h : f.IsCanonical m e)
    (hf : f.IsProper) (negative : Bool) :
    f.decode (f.encodeScaled negative m e) = .finite negative m e := by
  have many := hf.four_le_exponents
  have least := h.least
  have greatest := h.greatest
  have below := h.below
  rw [h.encodeScaled hf]
  by_cases small : m < f.fractions
  · have he : e = f.leastExponent := by
      rcases h.full with he | full
      · exact he
      · omega
    have bits := f.decode_fieldBits negative (by omega : 0 < f.exponents) small
    rw [if_neg (by omega), if_pos rfl] at bits
    simpa [fieldBits, he] using bits
  · have bits := f.decode_fieldBits negative
      (by omega : (e - f.leastExponent).toNat + 1 < f.exponents)
      (by omega : m - f.fractions < f.fractions)
    rw [if_neg (by omega), if_neg (by omega)] at bits
    have sum : ((e - f.leastExponent).toNat + 1) * f.fractions + (m - f.fractions)
        = (e - f.leastExponent).toNat * f.fractions + m := by
      rw [Nat.add_mul]
      omega
    have place : f.leastExponent + ((e - f.leastExponent).toNat + 1 - 1 : Nat) = e := by omega
    have mantissa : m - f.fractions + f.fractions = m := by omega
    rwa [fieldBits, sum, place, mantissa] at bits

theorem isCanonical_of_decode {f : Format} (hf : f.IsProper) {bits : Nat} (h : bits < 2 * f.signBit)
    {negative : Bool} {m : Nat} {e : Int} (hd : f.decode bits = .finite negative m e) :
    f.IsCanonical m e
      ∧ bits = (if negative then f.signBit else 0) + ((e - f.leastExponent).toNat * f.fractions + m) := by
  have many := hf.four_le_exponents
  obtain ⟨sign, exponent, fraction, he, hx, rfl⟩ := f.exists_fieldBits h
  rw [f.decode_fieldBits sign he hx] at hd
  split_ifs at hd with top zero least
  · simp only [Meaning.finite.injEq] at hd
    obtain ⟨rfl, rfl, rfl⟩ := hd
    refine ⟨⟨le_refl _, by omega, by omega, .inl rfl⟩, ?_⟩
    simp [fieldBits, least]
  · simp only [Meaning.finite.injEq] at hd
    obtain ⟨rfl, rfl, rfl⟩ := hd
    refine ⟨⟨by omega, by omega, by omega, .inr (by omega)⟩, ?_⟩
    have place : (f.leastExponent + (exponent - 1 : Nat) - f.leastExponent).toNat = exponent - 1 := by
      omega
    have sum : exponent * f.fractions = (exponent - 1) * f.fractions + f.fractions := by
      rw [← Nat.succ_mul]
      congr 1
      omega
    rw [fieldBits, place, sum]
    omega

/-- The bits of a number are those of what they mean, unless they mean no number. -/
theorem encode_decode {f : Format} (hf : f.IsProper) {bits : Nat} (h : bits < 2 * f.signBit)
    (number : f.decode bits ≠ .nan) : f.encode (f.decode bits) = bits := by
  cases hd : f.decode bits with
  | nan => exact absurd hd number
  | finite negative m e =>
    obtain ⟨canonical, whole⟩ := isCanonical_of_decode hf h hd
    rw [encode, canonical.encodeScaled hf, ← whole]
  | infinite negative =>
    obtain ⟨sign, exponent, fraction, he, hx, rfl⟩ := f.exists_fieldBits h
    rw [f.decode_fieldBits sign he hx] at hd
    split_ifs at hd with top zero
    simp only [Meaning.infinite.injEq] at hd
    rw [encode, fieldBits, infinityBits, hd, top, zero, Nat.add_zero]

theorem roundQuotient_le (f : Format) (num den : Nat) : f.roundQuotient num den ≤ f.infinityBits := by
  unfold roundQuotient
  dsimp only
  split_ifs
  · exact Nat.zero_le _
  · exact Nat.min_le_right ..
  · exact Nat.min_le_right ..

theorem infinityBits_add_fractions (f : Format) : f.infinityBits + f.fractions = f.signBit := by
  have many : f.exponents - 1 + 1 = f.exponents := Nat.sub_add_cancel (twoPow_pos _)
  rw [infinityBits, signBit, ← Nat.succ_mul, Nat.succ_eq_add_one, many]

/-- Every meaning has bits that a word of the format has room for. -/
theorem encode_lt (f : Format) (m : Meaning) : f.encode m < 2 * f.signBit := by
  have few := f.fractions_pos
  have top := f.infinityBits_add_fractions
  cases m with
  | nan =>
    rw [encode]
    omega
  | infinite negative =>
    rw [encode]
    split <;> omega
  | finite negative m e =>
    have round (num den : Nat) : f.encodeQuotient negative num den < 2 * f.signBit := by
      have := f.roundQuotient_le num den
      rw [encodeQuotient]
      split <;> omega
    rw [encode, encodeScaled]
    split
    · exact round _ _
    · exact round _ _

theorem decode_encode_infinite {f : Format} (hf : f.IsProper) (negative : Bool) :
    f.decode (f.encode (.infinite negative)) = .infinite negative := by
  have many := hf.four_le_exponents
  have bits := f.decode_fieldBits negative (by omega : f.exponents - 1 < f.exponents) f.fractions_pos
  rw [if_pos rfl, if_pos rfl] at bits
  rwa [fieldBits, Nat.add_zero] at bits

end Format

theorem singleFormat_isProper : singleFormat.IsProper := ⟨by decide, by decide⟩

theorem doubleFormat_isProper : doubleFormat.IsProper := ⟨by decide, by decide⟩

/-- A mantissa of a number of 32 bits, doubled until it has the length that numbers of 64 bits have. -/
theorem isCanonical_double {m : Nat} {e : Int} (h : singleFormat.IsCanonical m e) (hm : m ≠ 0) :
    doubleFormat.IsCanonical (m * twoPow (52 - m.log2)) (e - (52 - m.log2 : Nat)) := by
  have leastSingle : singleFormat.leastExponent = -149 := by decide
  have leastDouble : doubleFormat.leastExponent = -1074 := by decide
  have short : m.log2 < 24 := by
    have below := h.below
    rw [singleFormat_isProper.two_mul_fractions] at below
    exact (Nat.log2_lt hm).mpr below
  have length : (m * twoPow (52 - m.log2)).log2 = 52 := by
    rw [log2_mul_twoPow _ hm]
    omega
  have nonzero : m * twoPow (52 - m.log2) ≠ 0 := Nat.mul_ne_zero hm (twoPow_pos _).ne'
  have bounds := (Nat.log2_eq_iff nonzero).mp length
  have least := h.least
  have greatest := h.greatest
  have exponentsSingle : singleFormat.exponents = 256 := by decide
  have exponentsDouble : doubleFormat.exponents = 2048 := by decide
  have fractions : doubleFormat.fractions = 2 ^ 52 := rfl
  refine ⟨by omega, by omega, ?_, .inr ?_⟩
  · rw [fractions]
    omega
  · rw [fractions]
    omega

theorem Double.meaning_ofMeaning (m : Meaning) :
    (Double.ofMeaning m).meaning = doubleFormat.decode (doubleFormat.encode m) := by
  have fits : doubleFormat.encode m < 2 ^ 64 := doubleFormat.encode_lt m
  rw [Double.meaning, Double.ofMeaning, UInt64.toNat_ofNat', Nat.mod_eq_of_lt fits]

theorem Single.ofMeaning_meaning (x : Single) (number : x.meaning ≠ .nan) :
    Single.ofMeaning x.meaning = x := by
  have bits : singleFormat.encode x.meaning = x.bits.toNat :=
    Format.encode_decode singleFormat_isProper x.bits.toNat_lt number
  rw [Single.ofMeaning, bits, UInt32.ofNat_toNat]

/-- Nothing is lost on the way to 64 bits and back, unless there is no number to lose. -/
theorem Single.narrow_widen (x : Single) (number : x.meaning ≠ .nan) : x.widen.narrow = x := by
  have same : Single.ofMeaning x.widen.meaning = Single.ofMeaning x.meaning := by
    rw [Single.widen, Double.meaning_ofMeaning]
    cases hx : x.meaning with
    | nan => exact absurd hx number
    | infinite negative => rw [Format.decode_encode_infinite doubleFormat_isProper]
    | finite negative m e =>
      have single := (Format.isCanonical_of_decode singleFormat_isProper x.bits.toNat_lt hx).1
      by_cases hm : m = 0
      · have zero : doubleFormat.decode (doubleFormat.encode (.finite negative 0 e))
            = .finite negative 0 doubleFormat.leastExponent := by
          cases negative <;> rw [Format.encode, Format.encodeScaled_zero] <;> decide
        rw [hm, zero]
        simp only [Single.ofMeaning, Format.encode, Format.encodeScaled_zero]
      · have shifted := doubleFormat.encodeScaled_mul_twoPow negative m (52 - m.log2)
          (e - (52 - m.log2 : Nat))
        rw [Int.sub_add_cancel] at shifted
        have wide := Format.decode_encodeScaled (isCanonical_double single hm) doubleFormat_isProper
          negative
        rw [Format.encode, ← shifted, wide]
        simp only [Single.ofMeaning, Format.encode, Format.encodeScaled_mul_twoPow, Int.sub_add_cancel]
  rw [Double.narrow, same, x.ofMeaning_meaning number]

end PortableSql.Number
