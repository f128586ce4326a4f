import PortableSql.Proofs.Text.Trimming
import PortableSql.Text.Letters

/-!
# Digits

Which characters are digits, and which numbers digits denote.
-/
namespace PortableSql.Text

theorem isDigit_iff {c : Char} : isDigit c = true ↔ 48 ≤ c.toNat ∧ c.toNat ≤ 57 := by
  simp only [isDigit, Bool.and_eq_true, decide_eq_true_eq]
  exact Iff.rfl

theorem isBlank_of_isDigit {c : Char} (digit : isDigit c = true) : isBlank c = false := by
  have bounds := isDigit_iff.1 digit
  exact isBlank_eq_false_of_printable (by omega) (by omega)

/-- A text is the decimal numeral of a number, with at most so many digits. -/
structure IsNumeral (width : Nat) (digits : List Char) (n : Nat) : Prop where
  nonempty : digits ≠ []
  short : digits.length ≤ width
  inside : ∀ c ∈ digits, isDigit c = true
  value : Nat.ofDigitChars 10 digits 0 = n

namespace IsNumeral

variable {width n : Nat} {digits : List Char}

theorem decimalValue_eq (numeral : IsNumeral width digits n) : decimalValue digits = n :=
  numeral.value

theorem exists_head (numeral : IsNumeral width digits n) :
    ∃ c rest, digits = c :: rest ∧ isDigit c = true := by
  obtain ⟨c, rest, rfl⟩ := List.exists_cons_of_ne_nil numeral.nonempty
  exact ⟨c, rest, rfl, numeral.inside c List.mem_cons_self⟩

theorem trimStart_append (numeral : IsNumeral width digits n) (rest : List Char) :
    trimStart (digits ++ rest) = digits ++ rest := by
  obtain ⟨c, later, rfl, digit⟩ := numeral.exists_head
  exact trimStart_cons_of_not_blank (isBlank_of_isDigit digit) _

theorem trimEnd_append (numeral : IsNumeral width digits n) (front : List Char) :
    trimEnd (front ++ digits) = front ++ digits := by
  rcases List.eq_nil_or_concat digits with rfl | ⟨later, c, rfl⟩
  · exact absurd rfl numeral.nonempty
  · have digit := numeral.inside c (by simp)
    rw [List.concat_eq_append, ← List.append_assoc]
    exact trimEnd_concat_of_not_blank (isBlank_of_isDigit digit) _

end IsNumeral

end PortableSql.Text
