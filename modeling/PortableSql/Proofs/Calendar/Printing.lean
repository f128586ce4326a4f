import Mathlib.Tactic
import PortableSql.Calendar.Pattern
import PortableSql.Proofs.Text.Digits

/-!
# Printed dates

Numbers are printed as numerals of their width, and nothing but the marks of a pattern and the signs of
years stands between them.
-/
namespace PortableSql.Calendar

open Text

variable {width n : Nat} {c : Char}

theorem isDigit_of_mem_padded (member : c ∈ padded width n) : isDigit c = true := by
  rcases List.mem_append.1 member with zero | digit
  · rw [List.eq_of_mem_replicate zero]
    rfl
  · rw [Nat.toList_repr] at digit
    exact Nat.isDigit_of_mem_toDigits (by decide) (by decide) digit

theorem ofDigitChars_padded (width n : Nat) : Nat.ofDigitChars 10 (padded width n) 0 = n := by
  simp [padded, Nat.ofDigitChars_append]

theorem length_padded (small : n < 10 ^ width) (positive : 0 < width) :
    (padded width n).length = width := by
  have short := (Nat.length_toDigits_le_iff (by decide) positive).2 small
  simp only [padded, Nat.toList_repr, List.length_append, List.length_replicate]
  omega

theorem isNumeral_padded (small : n < 10 ^ width) (positive : 0 < width) :
    IsNumeral width (padded width n) n where
  nonempty := by
    rw [← List.length_pos_iff, length_padded small positive]
    exact positive
  short := (length_padded small positive).le
  inside _ := isDigit_of_mem_padded
  value := ofDigitChars_padded width n

/-- Only the marks of a pattern print quotes. -/
theorem quote_not_mem_print {pattern : Pattern} (noMark : .mark '\'' ∉ pattern) (t : DateTime) :
    '\'' ∉ (pattern.print t).toList := by
  have noDigit : ∀ width n, '\'' ∉ padded width n := fun _ _ member => by
    cases isDigit_of_mem_padded member
  rw [Pattern.print, String.toList_ofList, List.mem_flatMap]
  rintro ⟨part, among, inside⟩
  cases part with
  | mark c =>
    rw [List.mem_singleton.1 inside] at noMark
    exact noMark among
  | year =>
    change '\'' ∈ printYear t.date.year at inside
    unfold printYear at inside
    split at inside
    · exact noDigit _ _ inside
    · rcases List.mem_cons.1 inside with sign | digit
      · split at sign <;> cases sign
      · exact noDigit _ _ digit
  | fraction =>
    change '\'' ∈ printFraction t.time.nanosecond at inside
    unfold printFraction at inside
    dsimp only at inside
    split at inside
    · cases inside
    · split at inside
      · exact noDigit _ _ ((List.mem_cons.1 inside).resolve_left (by decide))
      · split at inside <;> exact noDigit _ _ ((List.mem_cons.1 inside).resolve_left (by decide))
  | gap => cases List.mem_singleton.1 inside
  | _ => exact noDigit _ _ inside

end PortableSql.Calendar
