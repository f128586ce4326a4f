import PortableSql.Text.Letters

/-!
The tokens of a query: quoted spans, line comments, numbers, words and single symbols. A quoted span
runs to its closing quote, a doubled quote inside it standing for the quote itself; a comment runs
from `--` to the end of its line. Tokens are lossless: the texts of the tokens of a query, one after
the other, are the query.
-/
namespace PortableSql.Query

open Text

inductive Token
  | quoted (text : List Char)
  | comment (text : List Char)
  | number (text : List Char)
  | word (text : List Char)
  | symbol (c : Char)
  deriving DecidableEq, Repr

namespace Token

/-- The token as it stands in the query. -/
def text : Token → List Char
  | .quoted text | .comment text | .number text | .word text => text
  | .symbol c => [c]

end Token

/-- Whether a character opens a quoted span. -/
def isQuote (c : Char) : Bool :=
  c == '\'' || c == '"'

/-- Splits a text behind the closing quote of a span whose opening quote has been read; a doubled
quote does not close. There is no split where the span is never closed. -/
def splitQuoted? (quote : Char) : List Char → Option (List Char × List Char)
  | [] => none
  | [c] => if c = quote then some ([c], []) else none
  | c :: d :: rest =>
    if c = quote then
      if d = quote then
        (splitQuoted? quote rest).map fun (body, after) => (c :: d :: body, after)
      else
        some ([c], d :: rest)
    else
      (splitQuoted? quote (d :: rest)).map fun (body, after) => (c :: body, after)

/-- Whether a character stands on the same line as the one before it. -/
def staysOnLine (c : Char) : Bool :=
  c != '\n'

/-- Whether a character continues a number; letters do, so that `1e5` and `2x` are one word. -/
def isNumberChar (c : Char) : Bool :=
  isNameChar c || c == '.'

/-- The first token of a text with the text behind it. There is none where the text starts with a
quote that is never closed. -/
def nextToken? (c : Char) (text : List Char) : Option (Token × List Char) :=
  if isQuote c then
    (splitQuoted? c text).map fun (body, rest) => (.quoted (c :: body), rest)
  else if c = '-' ∧ text.head? = some '-' then
    some (.comment (c :: text.takeWhile staysOnLine), text.dropWhile staysOnLine)
  else if isDigit c then
    some (.number (c :: text.takeWhile isNumberChar), text.dropWhile isNumberChar)
  else if isNameStart c then
    some (.word (c :: text.takeWhile isNameChar), text.dropWhile isNameChar)
  else
    some (.symbol c, text)

theorem splitQuoted?_append {quote : Char} {text body rest : List Char}
    (found : splitQuoted? quote text = some (body, rest)) : body ++ rest = text := by
  fun_induction splitQuoted? quote text generalizing body with
  | case1 => cases found
  | case2 => cases found; rfl
  | case3 => cases found
  | case4 after ih =>
    obtain ⟨⟨b, r⟩, inner, same⟩ := Option.map_eq_some_iff.1 found
    cases same
    simp [ih inner]
  | case5 => cases found; rfl
  | case6 c d after other ih =>
    obtain ⟨⟨b, r⟩, inner, same⟩ := Option.map_eq_some_iff.1 found
    cases same
    simp [ih inner]

/-- A token and the text behind it make up the text it was read from. -/
theorem nextToken?_append {c : Char} {text rest : List Char} {token : Token}
    (found : nextToken? c text = some (token, rest)) : token.text ++ rest = c :: text := by
  unfold nextToken? at found
  split at found
  · obtain ⟨⟨body, after⟩, inner, same⟩ := Option.map_eq_some_iff.1 found
    cases same
    simp [Token.text, splitQuoted?_append inner]
  · split at found
    · cases found; simp [Token.text, List.takeWhile_append_dropWhile]
    · split at found
      · cases found; simp [Token.text, List.takeWhile_append_dropWhile]
      · split at found
        · cases found; simp [Token.text, List.takeWhile_append_dropWhile]
        · cases found; rfl

theorem dropWhile_length_le (test : Char → Bool) (text : List Char) :
    (text.dropWhile test).length ≤ text.length :=
  (List.dropWhile_suffix test).length_le

/-- A token is never empty, so the text behind it is shorter. -/
theorem nextToken?_length {c : Char} {text rest : List Char} {token : Token}
    (found : nextToken? c text = some (token, rest)) : rest.length ≤ text.length := by
  unfold nextToken? at found
  split at found
  · obtain ⟨⟨body, after⟩, inner, same⟩ := Option.map_eq_some_iff.1 found
    cases same
    simp [← splitQuoted?_append inner]
  · split at found
    · cases found; exact dropWhile_length_le _ _
    · split at found
      · cases found; exact dropWhile_length_le _ _
      · split at found
        · cases found; exact dropWhile_length_le _ _
        · cases found; exact Nat.le_refl _

end PortableSql.Query
