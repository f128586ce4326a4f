import Mathlib.Data.List.TakeWhile
import PortableSql.Catalog.Basic

/-!
# Templates

The steps of putting arguments into a template, and what they make of text without parameters: it is
copied, and so is the text on both sides of a parameter (`expandText_parameter`).
-/
namespace PortableSql.Catalog

open Text

variable {args : List (List Char)} {text : List Char}

theorem expandText_nil : expandText args [] = [] := by
  rw [expandText]

/-- A parameter is replaced by its argument. -/
theorem expandText_of_some {index : Nat} {behind : List Char}
    (found : parameter? args.length text = some (index, behind)) :
    expandText args ('<' :: 'p' :: text) =
      args.get ⟨index, parameter?_lt found⟩ ++ expandText args behind := by
  rw [expandText]
  split
  · rename_i index' behind' found'
    obtain ⟨rfl, rfl⟩ : index' = index ∧ behind' = behind := by simpa using found'.symm.trans found
    rfl
  · rename_i missing
    rw [found] at missing
    cases missing

/-- What only begins like a parameter is copied. -/
theorem expandText_of_none (missing : parameter? args.length text = none) :
    expandText args ('<' :: 'p' :: text) = '<' :: 'p' :: expandText args text := by
  rw [expandText]
  split
  · rename_i found
    rw [missing] at found
    cases found
  · rfl

theorem expandText_cons {c : Char} (copied : c = '<' → text.head? ≠ some 'p') :
    expandText args (c :: text) = c :: expandText args text := by
  rw [expandText.eq_def]
  split
  · rename_i same
    cases same
    exact absurd rfl (copied rfl)
  · rename_i same
    cases same
    rfl
  · rename_i same
    cases same

/-- Text that begins no parameter is copied. -/
theorem expandText_append_of_not_mem {front : List Char} (missing : '<' ∉ front) :
    expandText args (front ++ text) = front ++ expandText args text := by
  induction front with
  | nil => rfl
  | cons c front ih =>
    obtain ⟨different, missing⟩ := not_or.1 (mt List.mem_cons.2 missing)
    rw [List.cons_append, expandText_cons fun same => absurd same.symm different, ih missing,
      List.cons_append]

/-- A character at which no parameter begins is copied. -/
theorem expandText_copy {c : Char}
    (free : ∀ rest, c :: text = '<' :: 'p' :: rest → parameter? args.length rest = none) :
    expandText args (c :: text) = c :: expandText args text := by
  -- `<p` is copied at once, and no parameter begins with the `p`
  by_cases begins : c = '<' ∧ text.head? = some 'p'
  · obtain ⟨rfl, next⟩ := begins
    obtain ⟨rest, rfl⟩ := List.head?_eq_some_iff.1 next
    rw [expandText_of_none (free rest rfl), expandText_cons (by simp)]
  · exact expandText_cons fun opens next => begins ⟨opens, next⟩

/-- A parameter is a number of digits between 1 and the number of arguments, and `>`. -/
theorem parameter?_eq_some_iff {count index : Nat} {text behind : List Char} :
    parameter? count text = some (index, behind) ↔
      ∃ digits, text = digits ++ '>' :: behind ∧ (∀ d ∈ digits, isDigit d = true) ∧
        1 ≤ decimalValue digits ∧ decimalValue digits ≤ count ∧ decimalValue digits - 1 = index := by
  unfold parameter?
  constructor
  · intro found
    split at found
    · rename_i rest shape
      dsimp only at found
      split at found
      · rename_i bounds
        cases found
        refine ⟨text.takeWhile isDigit, ?_, fun d member => List.mem_takeWhile_imp member,
          bounds.1, bounds.2, rfl⟩
        rw [← shape, List.takeWhile_append_dropWhile]
      · cases found
    · cases found
  · rintro ⟨digits, rfl, inside, low, high, rfl⟩
    have close : isDigit '>' = false := rfl
    rw [List.takeWhile_append_of_pos inside, List.dropWhile_append_of_pos inside,
      List.dropWhile_cons_of_neg (by simp [close]), List.takeWhile_cons_of_neg (by simp [close]),
      List.append_nil]
    exact if_pos ⟨low, high⟩

/-! ## Text without parameters -/

/-- Text of a template for one argument, in which no parameter stands. -/
def IsFixed (text : List Char) : Prop :=
  ∀ behind, '<' :: 'p' :: behind <:+ text → parameter? 1 behind = none

theorem IsFixed.of_suffix {back : List Char} (fixed : IsFixed text) (isSuffix : back <:+ text) :
    IsFixed back :=
  fun behind inside => fixed behind (inside.trans isSuffix)

/-- Text that is no parameter does not become one where a parameter follows. -/
private theorem parameter?_append {count : Nat} (missing : parameter? count text = none)
    (behind : List Char) : parameter? count (text ++ '<' :: behind) = none := by
  rw [Option.eq_none_iff_forall_ne_some] at missing ⊢
  rintro ⟨index, rest⟩ found
  obtain ⟨digits, shape, inside, bounds⟩ := parameter?_eq_some_iff.1 found
  rcases List.append_eq_append_iff.1 shape with ⟨middle, rfl, split⟩ | ⟨middle, rfl, split⟩
  · cases middle with
    | nil => cases split
    | cons d middle =>
      obtain ⟨rfl, _⟩ := List.cons.inj split
      have digit := inside '<' (by simp)
      cases digit
  · cases middle with
    | nil => cases split
    | cons d middle =>
      obtain ⟨rfl, rfl⟩ := List.cons.inj split
      exact missing _ (parameter?_eq_some_iff.2 ⟨digits, rfl, inside, bounds⟩)

/-- Fixed text in front of a template is copied. -/
private theorem expandText_append {front : List Char} (fixed : IsFixed front) (value : List Char)
    {behind : List Char} (parameter : behind = [] ∨ behind.head? = some '<') :
    expandText [value] (front ++ behind) = front ++ expandText [value] behind := by
  induction front with
  | nil => rfl
  | cons c front ih =>
    have later := ih (fixed.of_suffix ⟨[c], rfl⟩)
    rw [List.cons_append, expandText_copy, later, List.cons_append]
    intro rest same
    obtain ⟨rfl, next⟩ := List.cons.inj same
    cases front with
    | nil =>
      rw [List.nil_append] at next
      rcases parameter with rfl | head
      · cases next
      · rw [next] at head
        cases head
    | cons d front =>
      rw [List.cons_append] at next
      obtain ⟨rfl, rfl⟩ := List.cons.inj next
      have missing := fixed front List.suffix_rfl
      rcases parameter with rfl | head
      · rwa [List.append_nil]
      · obtain ⟨rest, rfl⟩ := List.head?_eq_some_iff.1 head
        exact parameter?_append missing rest

/-- The expansion of a template with one parameter. -/
theorem expandText_parameter {front behind : List Char} (fixedFront : IsFixed front)
    (fixedBehind : IsFixed behind) (value : List Char) :
    expandText [value] (front ++ '<' :: 'p' :: '1' :: '>' :: behind) = front ++ (value ++ behind) := by
  have digits : ∀ d ∈ ['1'], isDigit d = true := by
    intro d member
    rw [List.mem_singleton.mp member]
    rfl
  have found : parameter? [value].length ('1' :: '>' :: behind) = some (0, behind) :=
    parameter?_eq_some_iff.2 ⟨['1'], rfl, digits, by decide, Nat.le_refl 1, rfl⟩
  have copied := expandText_append fixedBehind value (.inl rfl)
  rw [List.append_nil, expandText_nil, List.append_nil] at copied
  rw [expandText_append fixedFront value (.inr rfl), expandText_of_some found, copied]
  rfl

end PortableSql.Catalog
