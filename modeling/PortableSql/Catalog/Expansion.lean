import PortableSql.Text.Letters

/-!
Expression templates. A template is text with parameters `<p1>`, `<p2>`, …; expanding it puts the
argument with that number in the place of each. One pass is made over the template alone, so
argument text that looks like a parameter is not replaced, and a parameter whose number is no
argument's stays as it is written.
-/
namespace PortableSql.Catalog

open Text

/-- Reads a parameter whose `<p` has been read: the index of the argument that it stands for, from 0,
and the text behind its `>`. -/
def parameter? (count : Nat) (text : List Char) : Option (Nat × List Char) :=
  match text.dropWhile isDigit with
  | '>' :: rest =>
    let number := decimalValue (text.takeWhile isDigit)
    if 1 ≤ number ∧ number ≤ count then some (number - 1, rest) else none
  | _ => none

theorem parameter?_length {count index : Nat} {text rest : List Char}
    (found : parameter? count text = some (index, rest)) : rest.length < text.length := by
  unfold parameter? at found
  split at found
  · rename_i after same
    have shorter := (List.dropWhile_suffix (l := text) isDigit).length_le
    rw [same] at shorter
    dsimp only at found
    split at found
    · cases found
      exact shorter
    · cases found
  · cases found

/-- The argument number that a parameter carries is one of the arguments'. -/
theorem parameter?_lt {count index : Nat} {text rest : List Char}
    (found : parameter? count text = some (index, rest)) : index < count := by
  unfold parameter? at found
  split at found
  · dsimp only at found
    split at found
    · cases found
      omega
    · cases found
  · cases found

/-- Puts the arguments in the places of the template's parameters. -/
def expandText (args : List (List Char)) (template : List Char) : List Char :=
  match template with
  | '<' :: 'p' :: rest =>
    match found : parameter? args.length rest with
    | some (index, behind) => args.get ⟨index, parameter?_lt found⟩ ++ expandText args behind
    | none => '<' :: 'p' :: expandText args rest
  | c :: rest => c :: expandText args rest
  | [] => []
termination_by template.length
decreasing_by
  · have := parameter?_length found
    simp only [List.length_cons]
    omega
  · simp only [List.length_cons]; omega
  · simp only [List.length_cons]; omega

end PortableSql.Catalog
