import PortableSql.Text.Letters

/-!
Placeholder tokens: a name between two delimiters, `#TODAY#`. The token at the beginning of a text is
recognized by reading the longest run of name characters behind the first delimiter.
-/
namespace PortableSql.Placeholder

open Text

/-- The character on both sides of a placeholder name. -/
def delimiter : Char := '#'

/-- The token at the beginning of a text whose first delimiter has been read, delimiters included,
and the text behind it. -/
def token? (text : List Char) : Option (List Char × List Char) :=
  match text.takeWhile isNameChar, text.dropWhile isNameChar with
  | c :: name, d :: rest =>
    if d = delimiter then some (delimiter :: (c :: name ++ [delimiter]), rest) else none
  | _, _ => none

/-- Whether a string is a delimiter, at least one name character and a delimiter. -/
def isName (s : String) : Bool :=
  match s.toList with
  | [] => false
  | first :: rest =>
    first == delimiter && rest.getLast? == some delimiter &&
      !rest.dropLast.isEmpty && rest.dropLast.all isNameChar

theorem token?_append {text token rest : List Char} (found : token? text = some (token, rest)) :
    token ++ rest = delimiter :: text := by
  unfold token? at found
  split at found
  · rename_i c name d behind taken dropped
    split at found
    · rename_i same
      cases found
      have whole := List.takeWhile_append_dropWhile (p := isNameChar) (l := text)
      rw [taken, dropped, same] at whole
      simpa using whole
    · cases found
  · cases found

theorem token?_length {text token rest : List Char} (found : token? text = some (token, rest)) :
    rest.length < text.length := by
  unfold token? at found
  split at found
  · rename_i c name d behind taken dropped
    have shorter := (List.dropWhile_suffix (l := text) isNameChar).length_le
    rw [dropped] at shorter
    split at found
    · cases found
      exact shorter
    · cases found
  · cases found

end PortableSql.Placeholder
