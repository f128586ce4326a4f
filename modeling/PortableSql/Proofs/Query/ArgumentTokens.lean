import Mathlib.Data.List.ModifyLast
import PortableSql.Proofs.Query.ArgumentList

/-!
# The tokens of an argument

Trimming a piece breaks none of its tokens but a comment at its end, which loses its trailing blanks.
So the text of an argument, read for itself, has the tokens of its piece without the blank ones at the
ends (`reads_argumentText`).
-/
namespace PortableSql.Query

open Text

namespace Token

/-- The token without blanks at its end. Only comments have any. -/
def trimmed : Token → Token
  | .comment letters => .comment (trimEnd letters)
  | token => token

private theorem trimEnd_dashes (letters : List Char) :
    trimEnd ('-' :: '-' :: letters) = '-' :: '-' :: trimEnd letters := by
  by_cases vanishes : trimEnd letters = []
  · have blank := trimEnd_eq_nil_iff.1 vanishes
    rw [vanishes]
    exact trimEnd_append_of_allBlank ['-', '-'] blank
  · exact trimEnd_append vanishes ['-', '-']

namespace StandsBefore

variable {token : Token} {next : Option Char}

theorem text_trimmed (stands : token.StandsBefore next) (visible : token.isBlank = false) :
    token.trimmed.text = trimEnd token.text := by
  cases found : token.isComment with
  | true =>
    cases token with
    | comment => rfl
    | _ => cases found
  | false =>
    rw [stands.trimEnd_text visible found]
    cases token with
    | comment => cases found
    | _ => rfl

theorem trimStart_text (stands : token.StandsBefore next) (visible : token.isBlank = false)
    (back : List Char) : trimStart (token.text ++ back) = token.text ++ back := by
  obtain ⟨c, letters, shape, first⟩ := stands.first_visible visible
  rw [shape]
  exact trimStart_cons_of_not_blank first (letters ++ back)

/-- A token without its trailing blanks is a token. -/
theorem trimmed_at_end (stands : token.StandsBefore next) : token.trimmed.StandsBefore none := by
  cases stands with
  | @comment letters _ line _ =>
    rw [trimmed, trimEnd_dashes]
    refine .comment (fun d member => line d ?_) (.inl rfl)
    obtain ⟨blanks, whole, _⟩ := trimEnd_append_drop letters
    rw [whole]
    exact List.mem_append_left blanks member
  | quoted opens inside closes => exact (StandsBefore.quoted opens inside closes).at_end
  | number digit inside ends => exact (StandsBefore.number digit inside ends).at_end
  | word start inside ends => exact (StandsBefore.word start inside ends).at_end
  | symbol noQuote noDigit noLetter noComment =>
    exact (StandsBefore.symbol noQuote noDigit noLetter noComment).at_end

end StandsBefore

end Token

/-- The tokens of the argument that a piece holds. -/
def argumentTokens (piece : List Token) : List Token :=
  ((piece.rdropWhile Token.isBlank).dropWhile Token.isBlank).modifyLast Token.trimmed ++
    if endsInComment piece then [.symbol '\n'] else []

/-- A piece with a visible token, cut at the last one and without the blanks in front. -/
theorem argumentTokens_append {last : Token} {trail : List Token}
    (visible : last.isBlank = false) (blank : ∀ token ∈ trail, token.isBlank = true)
    (front : List Token) :
    argumentTokens (front ++ last :: trail) =
      front.dropWhile Token.isBlank ++ [last.trimmed] ++
        if endsInComment (front ++ last :: trail) then [.symbol '\n'] else [] := by
  have behind : (front ++ last :: trail).rdropWhile Token.isBlank = front ++ [last] := by
    induction trail using List.reverseRecOn with
    | nil => rw [List.rdropWhile_concat_neg _ _ _ (by simp [visible])]
    | append_singleton trail token ih =>
      rw [← List.cons_append, ← List.append_assoc,
        List.rdropWhile_concat_pos _ _ _ (blank token (by simp))]
      exact ih fun other member => blank other (by simp [member])
  have ahead : (front ++ [last]).dropWhile Token.isBlank =
      front.dropWhile Token.isBlank ++ [last] := by
    rw [List.dropWhile_append]
    split
    · rename_i empty
      rw [List.isEmpty_iff.1 empty]
      simp [visible]
    · rfl
  rw [argumentTokens, behind, ahead, List.modifyLast_concat]

theorem argumentTokens_of_blank {piece : List Token} (blank : ¬ IsVisible piece) :
    argumentTokens piece = [] := by
  rw [not_isVisible_iff] at blank
  have noComment : endsInComment piece = false := by
    unfold endsInComment
    rw [lastToken?_eq_none_iff.2 blank]
  rw [argumentTokens, List.rdropWhile_eq_nil_iff.2 blank, noComment]
  rfl

private theorem isBlank_trimmed (token : Token) : token.trimmed.isBlank = token.isBlank := by
  cases token <;> rfl

/-- The tokens of a piece from its first visible one on, up to its last visible one. -/
private theorem Reads.inner {text rest : List Char} {front trail : List Token} {last : Token}
    (reads : Reads text (front ++ last :: trail) rest) :
    ∃ behind, Reads (source (front.dropWhile Token.isBlank) ++ last.text ++ behind)
      (front.dropWhile Token.isBlank ++ [last]) behind := by
  rw [← List.takeWhile_append_dropWhile (p := Token.isBlank) (l := front), List.append_assoc] at reads
  have whole := reads.of_append.2
  rw [List.append_cons] at whole
  have inner := whole.of_append.1
  have same := inner.lossless
  refine ⟨source trail ++ rest, ?_⟩
  rw [← same] at inner
  simpa using inner

/-- The piece without the blanks at its ends, on its tokens. -/
private theorem Reads.trim_source {text rest : List Char} {front trail : List Token} {last : Token}
    (reads : Reads text (front ++ last :: trail) rest) (visible : last.isBlank = false)
    (blank : ∀ token ∈ trail, token.isBlank = true) :
    trim (source (front ++ last :: trail)) =
      source (front.dropWhile Token.isBlank) ++ last.trimmed.text := by
  obtain ⟨_, _, stands, _⟩ := Reads.cons_iff.1 reads.of_append.2
  have lead : allBlank (source (front.takeWhile Token.isBlank)) = true :=
    allBlank_source fun token member => List.mem_takeWhile_imp member
  have split : source front = source (front.takeWhile Token.isBlank) ++
      source (front.dropWhile Token.isBlank) := by
    rw [← source_append, List.takeWhile_append_dropWhile]
  rw [trim_eq_trimStart_trimEnd, reads.trimEnd_source visible blank, ← stands.text_trimmed visible,
    split, List.append_assoc, trimStart_append_of_allBlank lead]
  obtain ⟨behind, inner⟩ := reads.inner
  cases found : front.dropWhile Token.isBlank with
  | nil =>
    have whole := stands.trimmed_at_end.trimStart_text ((isBlank_trimmed last).trans visible) []
    simpa using whole
  | cons first later =>
    rw [found] at inner
    obtain ⟨_, _, standsFirst, _⟩ := Reads.cons_iff.1 inner
    have visibleFirst : first.isBlank = false := head?_dropWhile_eq_false (by rw [found]; rfl)
    rw [source_cons, List.append_assoc]
    exact standsFirst.trimStart_text visibleFirst _

private theorem Token.StandsBefore.head?_trimmed {token : Token} {next : Option Char}
    (stands : token.StandsBefore next) (visible : token.isBlank = false) :
    token.trimmed.text.head? = token.text.head? := by
  obtain ⟨blanks, whole, _⟩ := trimEnd_append_drop token.text
  have remains := stands.trimEnd_text_ne_nil visible
  rw [stands.text_trimmed visible]
  conv_rhs => rw [whole, List.head?_append_of_ne_nil _ remains]

/-- The last token of a reading may be replaced by one that begins in the same way. -/
theorem Reads.replace_last {text rest : List Char} {front : List Token}
    {last other : Token} (reads : Reads text (front ++ [last]) rest)
    (same : other.text.head? = last.text.head?) (rest' : List Char) (stands : other.StandsBefore rest'.head?) :
    Reads (source front ++ (other.text ++ rest')) (front ++ [other]) rest' := by
  obtain ⟨before, after⟩ := reads.of_append
  obtain ⟨_, _, standsLast, _⟩ := Reads.cons_iff.1 after
  refine (before.replace_rest ?_).append (.cons stands (.nil rest'))
  have ends := before.last_standsBefore
  have headLast : (source [last] ++ rest).head? = (other.text ++ rest').head? := by
    rw [source_cons, source_nil, List.append_nil, List.head?_append, List.head?_append, same]
    obtain ⟨c, letters, shape⟩ := List.exists_cons_of_ne_nil standsLast.text_ne_nil
    rw [shape]
    rfl
  rw [headLast] at ends
  exact ends

/-- The tokens of an argument. -/
theorem reads_argumentText {piece : List Token} (delimited : Delimited piece) :
    Reads (argumentText piece) (argumentTokens piece) [] := by
  obtain ⟨text, rest, reads, _⟩ := id delimited
  cases found : lastToken? piece with
  | none =>
    have blank := not_isVisible_iff.2 (lastToken?_eq_none_iff.1 found)
    rw [argumentText_of_blank blank, argumentTokens_of_blank blank]
    exact .nil []
  | some last =>
    obtain ⟨front, trail, rfl, visible, blank⟩ := exists_of_lastToken? found
    obtain ⟨behind, inner⟩ := reads.inner
    obtain ⟨_, _, stands, _⟩ := Reads.cons_iff.1 reads.of_append.2
    have same := stands.head?_trimmed visible
    rw [argumentTokens_append visible blank, argumentText, reads.trim_source visible blank]
    split
    · rename_i ends
      obtain ⟨front', letters, trail', shape, blank', tight⟩ := endsInComment_iff.1 ends
      have last : lastToken? (front ++ last :: trail) = some (.comment letters) := by
        rw [shape]
        exact lastToken?_append rfl blank' front'
      obtain rfl := Option.some.inj (found.symm.trans last)
      have newline : Reads ['\n'] [.symbol '\n'] [] := .of_nextToken? (by rfl) (.nil [])
      rw [Token.trimmed, tight] at same ⊢
      have whole := (inner.replace_last same ['\n'] stands.before_newline).append newline
      simpa using whole
    · have whole := inner.replace_last same [] stands.trimmed_at_end
      simpa using whole

/-- The token at the end of an argument. -/
theorem getLast?_argumentTokens (piece : List Token) :
    (argumentTokens piece).getLast? =
      if endsInComment piece then some (.symbol '\n') else (lastToken? piece).map Token.trimmed := by
  cases found : lastToken? piece with
  | none =>
    have noComment : endsInComment piece = false := by rw [endsInComment, found]
    have blank := not_isVisible_iff.2 (lastToken?_eq_none_iff.1 found)
    rw [argumentTokens_of_blank blank, noComment]
    rfl
  | some last =>
    obtain ⟨front, trail, rfl, visible, blank⟩ := exists_of_lastToken? found
    rw [argumentTokens_append visible blank]
    split
    · rw [List.getLast?_concat]
    · rw [List.append_nil, List.getLast?_concat]
      rfl

/-- Tokens of a piece that are neither blank nor trimmed are those of its argument. -/
theorem filter_argumentTokens {keep : Token → Bool} {piece : List Token}
    (hides : ∀ token : Token, token.isBlank = true → keep token = false)
    (trims : ∀ token ∈ piece, [token.trimmed].filter keep = [token].filter keep) :
    (argumentTokens piece).filter keep = piece.filter keep := by
  have hidden : ∀ {tokens : List Token}, (∀ token ∈ tokens, token.isBlank = true) →
      tokens.filter keep = [] := by
    intro tokens blank
    rw [List.filter_eq_nil_iff]
    intro token member
    rw [hides token (blank token member)]
    nofun
  cases found : lastToken? piece with
  | none =>
    have blank := lastToken?_eq_none_iff.1 found
    rw [argumentTokens_of_blank (not_isVisible_iff.2 blank), hidden blank]
    rfl
  | some last =>
    obtain ⟨front, trail, rfl, visible, blank⟩ := exists_of_lastToken? found
    have lead : (front.takeWhile Token.isBlank).filter keep = [] :=
      hidden fun token member => List.mem_takeWhile_imp member
    have newline : (if endsInComment (front ++ last :: trail) then [Token.symbol '\n'] else []).filter
        keep = [] := by
      split
      · exact hidden (by simp [Token.isBlank, isBlank])
      · rfl
    have same := trims last (by simp)
    have frontSame : (front.dropWhile Token.isBlank).filter keep = front.filter keep := by
      conv_rhs => rw [← List.takeWhile_append_dropWhile (p := Token.isBlank) (l := front),
        List.filter_append, lead, List.nil_append]
    rw [argumentTokens_append visible blank, List.filter_append, newline, List.append_nil,
      List.filter_append, same, frontSame, List.append_cons, List.filter_append, List.filter_append,
      hidden blank, List.append_nil]

/-- An argument is a piece for itself. -/
theorem IsPiece.argumentTokens {piece : List Token} (isPiece : IsPiece piece) :
    IsPiece (argumentTokens piece) := by
  refine isPiece.of_filter_eq (filter_argumentTokens (fun token blank => ?_) fun token _ => ?_).symm
  · by_contra structural
    rw [Bool.not_eq_false] at structural
    rcases Token.isStructural_iff.1 structural with rfl | rfl | rfl <;> cases blank
  · cases token <;> rfl

/-- The argument of a piece without comments is a part of the piece. -/
theorem argumentTokens_isInfix {piece : List Token} (noComment : ∀ token ∈ piece, token.isComment = false) :
    argumentTokens piece <:+: piece := by
  have noneAtEnd : endsInComment piece = false := by
    by_contra ends
    obtain ⟨front, letters, trail, rfl, _⟩ := endsInComment_iff.1 (by simpa using ends)
    cases noComment (.comment letters) (by simp)
  have front : piece.rdropWhile Token.isBlank <:+: piece := (List.rdropWhile_prefix Token.isBlank piece).isInfix
  have inner := (List.dropWhile_suffix Token.isBlank).isInfix.trans front
  rw [argumentTokens, noneAtEnd, if_neg (by simp), List.append_nil]
  generalize (piece.rdropWhile Token.isBlank).dropWhile Token.isBlank = kept at inner
  -- without comments nothing is trimmed
  rcases List.eq_nil_or_concat kept with rfl | ⟨kept, last, rfl⟩
  · exact inner
  · rw [List.concat_eq_append] at inner ⊢
    have plain := noComment last (inner.subset (by simp))
    rw [List.modifyLast_concat]
    cases last with
    | comment => cases plain
    | _ => exact inner

private theorem infix_of_concat {inner front : List Token} {token last : Token}
    (inside : front ++ [token] <:+: inner ++ [last]) (other : token ≠ last) :
    front ++ [token] <:+: inner := by
  rcases List.infix_concat_iff.1 inside with atEnd | within
  · rcases List.suffix_concat_iff.1 atEnd with none | ⟨front', same, _⟩
    · simp at none
    · exact absurd (List.append_inj' same rfl).2 (by simpa using other)
  · exact within

/-- Trimming a piece makes no new stretch that ends in neither a blank nor a comment. -/
theorem infix_of_argumentTokens {piece front : List Token} {token : Token}
    (inside : front ++ [token] <:+: argumentTokens piece) (visible : token.isBlank = false)
    (noComment : token.isComment = false) : front ++ [token] <:+: piece := by
  cases found : lastToken? piece with
  | none =>
    have blank := not_isVisible_iff.2 (lastToken?_eq_none_iff.1 found)
    rw [argumentTokens_of_blank blank, List.infix_nil] at inside
    simp at inside
  | some last =>
    obtain ⟨lead, trail, rfl, visibleLast, blank⟩ := exists_of_lastToken? found
    rw [argumentTokens_append visibleLast blank] at inside
    have kept : front ++ [token] <:+: lead.dropWhile Token.isBlank ++ [last.trimmed] := by
      split at inside
      · apply infix_of_concat inside
        rintro rfl
        cases visible
      · rwa [List.append_nil] at inside
    have whole : lead.dropWhile Token.isBlank ++ [last] <:+: lead ++ last :: trail := by
      obtain ⟨blanks, shape⟩ := List.dropWhile_suffix Token.isBlank (l := lead)
      refine ⟨blanks, trail, ?_⟩
      rw [← List.append_assoc, shape, List.append_assoc]
      rfl
    by_cases comment : last.isComment = true
    · -- only a comment is changed, and the stretch does not end in it
      have apart : token ≠ last.trimmed := by
        rintro rfl
        cases last with
        | comment => cases noComment
        | _ => cases comment
      exact ((infix_of_concat kept apart).trans (List.prefix_append ..).isInfix).trans whole
    · have same : last.trimmed = last := by
        cases last with
        | comment => exact absurd rfl comment
        | _ => rfl
      rw [same] at kept
      exact kept.trans whole

/-- A piece without a comment and without blanks at its ends is its own argument. -/
theorem Reads.argument_eq_self {text : List Char} {tokens : List Token} (reads : Reads text tokens [])
    (noComment : ∀ token ∈ tokens.getLast?, token.isComment = false) (tight : trim text = text) :
    argumentText tokens = text ∧ argumentTokens tokens = tokens := by
  have written := reads.source_eq
  have noneAtEnd : endsInComment tokens = false := by
    by_contra ends
    obtain ⟨front, letters, trail, rfl, blank, _⟩ := endsInComment_iff.1 (by simpa using ends)
    rcases List.eq_nil_or_concat trail with rfl | ⟨trail, last, rfl⟩
    · cases noComment (.comment letters) (by simp)
    · have isBlank := blank last (by simp)
      cases last with
      | symbol c =>
        have ends : (trim text).getLast? = some c := by
          rw [tight, ← written]
          simp [Token.text]
        have visible : Text.isBlank c = false := isBlank_getLast?_trimEnd ends
        rw [Token.isBlank, visible] at isBlank
        cases isBlank
      | _ => cases isBlank
  have delimited : Delimited tokens :=
    ⟨_, _, reads.before_separator (c := ')') noComment rfl rfl (by decide) [], .inr rfl⟩
  have argument : argumentText tokens = text := by
    rw [argumentText, noneAtEnd, if_neg (by simp), written, tight]
  have readsArgument := reads_argumentText delimited
  rw [argument] at readsArgument
  exact ⟨argument, readsArgument.unique reads⟩

end PortableSql.Query
