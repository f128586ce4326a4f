import Mathlib.Data.List.DropRight
import PortableSql.Text.Blank

/-!
# Trimming

What trimming does to a text that is put together from parts: blanks at the end go, whatever stands
before a part that does not vanish stays, and the two ends are trimmed independently of each other.
-/
namespace PortableSql.Text

theorem dropEndWhile_concat (test : Char → Bool) (text : List Char) (c : Char) :
    dropEndWhile test (text ++ [c]) = if test c then dropEndWhile test text else text ++ [c] := by
  induction text with
  | nil => rfl
  | cons d rest ih =>
    rw [List.cons_append]
    simp only [dropEndWhile, ih]
    by_cases drops : test c = true
    · simp [drops]
    · simp [drops]

theorem dropEndWhile_eq_rdropWhile (test : Char → Bool) (text : List Char) :
    dropEndWhile test text = text.rdropWhile test := by
  induction text using List.reverseRecOn with
  | nil => rfl
  | append_singleton text c ih => rw [dropEndWhile_concat, List.rdropWhile_concat, ih]

/-- What remains does not end in a character that would have been dropped. -/
theorem getLast?_dropEndWhile {test : Char → Bool} {text : List Char} {c : Char}
    (last : (dropEndWhile test text).getLast? = some c) : test c = false := by
  rw [dropEndWhile_eq_rdropWhile] at last
  obtain ⟨nonempty, rfl⟩ := List.mem_getLast?_eq_getLast last
  exact Bool.eq_false_iff.2 (List.rdropWhile_last_not test text nonempty)

theorem trimEnd_concat_of_not_blank {c : Char} (visible : isBlank c = false) (text : List Char) :
    trimEnd (text ++ [c]) = text ++ [c] := by
  rw [trimEnd, dropEndWhile_concat, visible]
  rfl

theorem trimEnd_append_of_allBlank (text : List Char) {blanks : List Char}
    (blank : allBlank blanks = true) : trimEnd (text ++ blanks) = trimEnd text := by
  induction blanks using List.reverseRecOn with
  | nil => rw [List.append_nil]
  | append_singleton blanks c ih =>
    have both : allBlank blanks = true ∧ isBlank c = true := by simpa [allBlank] using blank
    rw [← List.append_assoc, trimEnd, dropEndWhile_concat, both.2, if_pos rfl]
    exact ih both.1

theorem trimEnd_eq_nil_iff {text : List Char} : trimEnd text = [] ↔ allBlank text = true := by
  rw [trimEnd, dropEndWhile_eq_rdropWhile, List.rdropWhile_eq_nil_iff, allBlank, List.all_eq_true]

theorem trimEnd_append {back : List Char} (remains : trimEnd back ≠ []) (front : List Char) :
    trimEnd (front ++ back) = front ++ trimEnd back := by
  induction front with
  | nil => rfl
  | cons c front ih =>
    have step : trimEnd (c :: (front ++ back)) = c :: trimEnd (front ++ back) := by
      obtain ⟨d, kept, shape⟩ := List.exists_cons_of_ne_nil (l := trimEnd (front ++ back))
        (by rw [ih]; exact List.append_ne_nil_of_right_ne_nil front remains)
      unfold trimEnd at shape ⊢
      simp only [dropEndWhile, shape]
    rw [List.cons_append, step, ih]
    rfl

/-- What trimming leaves ends in no blank. -/
theorem trimEnd_trimEnd (text : List Char) : trimEnd (trimEnd text) = trimEnd text := by
  simp only [trimEnd, dropEndWhile_eq_rdropWhile, List.rdropWhile_idempotent]

theorem isBlank_getLast?_trimEnd {text : List Char} {c : Char}
    (last : (trimEnd text).getLast? = some c) : isBlank c = false :=
  getLast?_dropEndWhile last

theorem allBlank_trimEnd (text : List Char) : allBlank (trimEnd text) = allBlank text := by
  rw [Bool.eq_iff_iff, ← trimEnd_eq_nil_iff, trimEnd_trimEnd, trimEnd_eq_nil_iff]

theorem trimEnd_append_drop (text : List Char) :
    ∃ blanks, text = trimEnd text ++ blanks ∧ allBlank blanks = true := by
  refine ⟨text.rtakeWhile isBlank, ?_, ?_⟩
  · rw [trimEnd, dropEndWhile_eq_rdropWhile, List.rdropWhile_append_rtakeWhile]
  · rw [allBlank, List.all_eq_true]
    exact fun c member => List.mem_rtakeWhile_imp member

theorem trimStart_append_of_allBlank {blanks : List Char} (blank : allBlank blanks = true)
    (text : List Char) : trimStart (blanks ++ text) = trimStart text :=
  List.dropWhile_append_of_pos (List.all_eq_true.1 blank)

theorem trimStart_cons_of_not_blank {c : Char} (visible : isBlank c = false) (text : List Char) :
    trimStart (c :: text) = c :: text := by
  simp [trimStart, visible]

theorem trimStart_append {front : List Char} (remains : trimStart front ≠ []) (back : List Char) :
    trimStart (front ++ back) = trimStart front ++ back := by
  unfold trimStart at remains ⊢
  rw [List.dropWhile_append, if_neg (by simpa using remains)]

theorem trimStart_eq_nil_iff {text : List Char} : trimStart text = [] ↔ allBlank text = true := by
  rw [trimStart, List.dropWhile_eq_nil_iff, allBlank, List.all_eq_true]

/-- The two ends are trimmed in either order. -/
theorem trim_eq_trimStart_trimEnd (text : List Char) : trim text = trimStart (trimEnd text) := by
  obtain ⟨blanks, whole, blank⟩ := trimEnd_append_drop text
  by_cases vanishes : trimStart (trimEnd text) = []
  · have allOfIt : allBlank text = true := by
      rw [trimStart_eq_nil_iff] at vanishes
      rw [whole, allBlank, List.all_append]
      exact Bool.and_eq_true_iff.2 ⟨vanishes, blank⟩
    rw [vanishes, trim, trimStart_eq_nil_iff.2 allOfIt]
    rfl
  · have split : trimStart text = trimStart (trimEnd text) ++ blanks := by
      rw [← trimStart_append vanishes, ← whole]
    have leading : trimEnd text = (trimEnd text).takeWhile isBlank ++ trimStart (trimEnd text) :=
      (List.takeWhile_append_dropWhile ..).symm
    have remains : trimEnd (trimStart (trimEnd text)) ≠ [] := by
      rw [ne_eq, trimEnd_eq_nil_iff, ← trimStart_eq_nil_iff, trimStart, trimStart,
        List.dropWhile_idempotent]
      exact vanishes
    have again := trimEnd_trimEnd text
    rw [leading, trimEnd_append remains, ← leading] at again
    rw [trim, split, trimEnd_append_of_allBlank _ blank]
    exact List.append_cancel_left (again.trans leading)

theorem trim_of_visible {text : List Char} (h : ∀ c ∈ text, isBlank c = false) : trim text = text := by
  have start : trimStart text = text := by
    cases text with
    | nil => rfl
    | cons c rest => exact trimStart_cons_of_not_blank (h c (by simp)) rest
  rw [trim, start]
  induction text using List.reverseRecOn with
  | nil => rfl
  | append_singleton text c => exact trimEnd_concat_of_not_blank (h c (by simp)) text

/-- Around a text that neither begins nor ends with a blank, blanks are trimmed. -/
theorem trim_between {front body back : List Char} (blankFront : allBlank front = true)
    (blankBack : allBlank back = true) (nonempty : body ≠ []) (start : trimStart body = body)
    (ends : trimEnd body = body) : trim (front ++ body ++ back) = body := by
  have remains : trimStart body ≠ [] := by rwa [start]
  rw [trim, List.append_assoc, trimStart_append_of_allBlank blankFront, trimStart_append remains, start,
    trimEnd_append_of_allBlank _ blankBack, ends]

/-- Trimming takes nothing but blanks away. -/
theorem exists_blanks_around (text : List Char) : ∃ front back, text = front ++ trim text ++ back ∧
    allBlank front = true ∧ allBlank back = true := by
  obtain ⟨back, whole, blank⟩ := trimEnd_append_drop (trimStart text)
  refine ⟨text.takeWhile isBlank, back, ?_, List.all_takeWhile, blank⟩
  rw [trim, List.append_assoc, ← whole, trimStart, List.takeWhile_append_dropWhile]

theorem isBlank_eq_false_of_printable {c : Char} (low : 0x20 < c.toNat) (high : c.toNat < 0x7F) :
    isBlank c = false := by
  simp only [isBlank, Bool.or_eq_false_iff, Bool.and_eq_false_iff, decide_eq_false_iff_not,
    beq_eq_false_iff_ne, ne_eq]
  omega

end PortableSql.Text
