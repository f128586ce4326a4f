import PortableSql.Proofs.Query.Pieces

/-!
# From pieces to arguments

The argument of a piece, said on its tokens: the piece without the blanks at its ends, and where its
last token is a comment that ends in no blank, with the newline that closes the comment
(`Piece.Holds.argument_text`). The last comment is found again from the tokens, and trimming reaches
no further than the last token that is not a blank (`Reads.trimEnd_source`).
-/
namespace PortableSql.Query

open Text

/-! ## Visible tokens -/

theorem isBlank_of_isQuote {c : Char} (quote : isQuote c = true) : isBlank c = false := by
  rcases isQuote_iff.1 quote with rfl | rfl <;> rfl

theorem isBlank_of_isNameStart {c : Char} (start : isNameStart c = true) : isBlank c = false := by
  rcases isNameStart_iff.1 start with bounds | bounds | rfl
  · exact isBlank_eq_false_of_printable (by omega) (by omega)
  · exact isBlank_eq_false_of_printable (by omega) (by omega)
  · rfl

theorem isBlank_of_isNameChar {c : Char} (name : isNameChar c = true) : isBlank c = false := by
  rcases (Bool.or_eq_true _ _).mp name with start | digit
  · exact isBlank_of_isNameStart start
  · exact isBlank_of_isDigit digit

theorem isBlank_of_isNumberChar {c : Char} (number : isNumberChar c = true) :
    isBlank c = false := by
  rcases (Bool.or_eq_true _ _).mp number with name | point
  · exact isBlank_of_isNameChar name
  · rw [beq_iff_eq] at point
    subst point
    rfl

namespace Token

/-- Whether a token is a blank. -/
def isBlank : Token → Bool
  | .symbol c => Text.isBlank c
  | _ => false

def isComment : Token → Bool
  | .comment _ => true
  | _ => false

namespace StandsBefore

variable {token : Token} {next : Option Char}

/-- A token may always end a text. -/
theorem at_end (stands : token.StandsBefore next) : token.StandsBefore none := by
  cases stands with
  | quoted opens inside _ => exact .quoted opens inside (by simp)
  | comment line _ => exact .comment line (.inl rfl)
  | number digit inside _ => exact .number digit inside (by simp)
  | word start inside _ => exact .word start inside (by simp)
  | symbol noQuote noDigit noLetter _ => exact .symbol noQuote noDigit noLetter (by simp)

/-- A token that is no comment also ends before a character that continues no token. -/
theorem before_separator {c : Char} (stands : token.StandsBefore next)
    (noComment : token.isComment = false) (noQuote : isQuote c = false)
    (noNumber : isNumberChar c = false) (noDash : c ≠ '-') : token.StandsBefore (some c) := by
  have noName : isNameChar c = false := ((Bool.or_eq_false_iff).1 noNumber).1
  cases stands with
  | quoted opens inside _ =>
    refine .quoted opens inside fun same => ?_
    rw [Option.some.inj same, opens] at noQuote
    cases noQuote
  | comment => cases noComment
  | number digit inside _ => exact .number digit inside fun d same => Option.some.inj same ▸ noNumber
  | word start inside _ => exact .word start inside fun d same => Option.some.inj same ▸ noName
  | symbol noQuote noDigit noLetter _ =>
    exact .symbol noQuote noDigit noLetter fun _ same => noDash (Option.some.inj same)

/-- A newline ends every token. -/
theorem before_newline (stands : token.StandsBefore next) : token.StandsBefore (some '\n') := by
  cases comment : token.isComment with
  | false => exact stands.before_separator comment rfl rfl (by decide)
  | true =>
    cases stands with
    | comment line _ => exact .comment line (.inr rfl)
    | _ => cases comment

theorem first_visible (stands : token.StandsBefore next) (visible : token.isBlank = false) :
    ∃ c letters, token.text = c :: letters ∧ Text.isBlank c = false := by
  cases stands with
  | quoted opens _ _ => exact ⟨_, _, rfl, isBlank_of_isQuote opens⟩
  | comment => exact ⟨_, _, rfl, rfl⟩
  | number digit _ _ => exact ⟨_, _, rfl, isBlank_of_isDigit digit⟩
  | word start _ _ => exact ⟨_, _, rfl, isBlank_of_isNameStart start⟩
  | symbol => exact ⟨_, _, rfl, visible⟩

/-- A run of characters that are never blank is not trimmed. -/
private theorem trimEnd_of_visible {letters : List Char}
    (visible : ∀ d ∈ letters, Text.isBlank d = false) : trimEnd letters = letters := by
  rcases List.eq_nil_or_concat letters with rfl | ⟨front, c, rfl⟩
  · rfl
  · rw [List.concat_eq_append] at visible ⊢
    exact trimEnd_concat_of_not_blank (visible c (by simp)) front

/-- Only comments lose anything when they are trimmed. -/
theorem trimEnd_text (stands : token.StandsBefore next) (visible : token.isBlank = false)
    (noComment : token.isComment = false) : trimEnd token.text = token.text := by
  cases stands with
  | @quoted quote body _ opens _ _ =>
    exact trimEnd_concat_of_not_blank (isBlank_of_isQuote opens) (quote :: body)
  | comment => cases noComment
  | number digit inside _ =>
    apply trimEnd_of_visible
    intro d member
    rcases List.mem_cons.1 member with rfl | member
    · exact isBlank_of_isDigit digit
    · exact isBlank_of_isNumberChar (inside d member)
  | word start inside _ =>
    apply trimEnd_of_visible
    intro d member
    rcases List.mem_cons.1 member with rfl | member
    · exact isBlank_of_isNameStart start
    · exact isBlank_of_isNameChar (inside d member)
  | symbol =>
    apply trimEnd_of_visible
    intro d member
    rw [List.mem_singleton.1 member]
    exact visible

theorem trimEnd_text_ne_nil (stands : token.StandsBefore next) (visible : token.isBlank = false) :
    trimEnd token.text ≠ [] := by
  obtain ⟨c, letters, shape, visible⟩ := stands.first_visible visible
  rw [ne_eq, trimEnd_eq_nil_iff, shape]
  simp [allBlank, visible]

end StandsBefore

end Token

/-- Tokens the last of which is no comment also end before a character that continues no token. -/
theorem Reads.before_separator {text : List Char} {tokens : List Token} {c : Char}
    (reads : Reads text tokens []) (noComment : ∀ token ∈ tokens.getLast?, token.isComment = false)
    (noQuote : isQuote c = false) (noNumber : isNumberChar c = false) (noDash : c ≠ '-')
    (rest : List Char) : Reads (text ++ c :: rest) tokens (c :: rest) := by
  have whole := reads.source_eq
  rw [← whole]
  refine reads.replace_rest fun token last => ?_
  exact (reads.last_standsBefore token last).before_separator (noComment token last) noQuote noNumber
    noDash

theorem allBlank_source {tokens : List Token} (blank : ∀ token ∈ tokens, token.isBlank = true) :
    allBlank (source tokens) = true := by
  rw [allBlank, List.all_eq_true]
  intro c member
  obtain ⟨token, mem, inside⟩ := List.mem_flatMap.1 member
  have := blank token mem
  cases token with
  | symbol d =>
    rw [List.mem_singleton.1 inside]
    exact this
  | _ => cases this

theorem Reads.isBlank_of_allBlank {text rest : List Char} {tokens : List Token}
    (reads : Reads text tokens rest) (blank : allBlank (source tokens) = true) :
    ∀ token ∈ tokens, token.isBlank = true := by
  induction reads with
  | nil => simp
  | @cons token tokens behind rest stands _ ih =>
    rw [source_cons, allBlank, List.all_append, Bool.and_eq_true] at blank
    intro other member
    rcases List.mem_cons.1 member with rfl | member
    · by_contra visible
      obtain ⟨c, letters, shape, visible⟩ := stands.first_visible (by simpa using visible)
      simp [shape, visible] at blank
    · exact ih blank.2 other member

/-! ## The last token of a piece -/

/-- The last token of a piece that is not a blank. -/
def lastToken? (piece : List Token) : Option Token :=
  (piece.rdropWhile Token.isBlank).getLast?

theorem lastToken?_append {last : Token} {trail : List Token} (visible : last.isBlank = false)
    (blank : ∀ token ∈ trail, token.isBlank = true) (front : List Token) :
    lastToken? (front ++ last :: trail) = some last := by
  unfold lastToken?
  induction trail using List.reverseRecOn with
  | nil => rw [List.rdropWhile_concat_neg _ _ _ (by simp [visible]), List.getLast?_concat]
  | append_singleton trail token ih =>
    rw [← List.cons_append, ← List.append_assoc,
      List.rdropWhile_concat_pos _ _ _ (blank token (by simp))]
    exact ih fun other member => blank other (by simp [member])

theorem exists_of_lastToken? {piece : List Token} {last : Token}
    (found : lastToken? piece = some last) :
    ∃ front trail, piece = front ++ last :: trail ∧ last.isBlank = false ∧
      ∀ token ∈ trail, token.isBlank = true := by
  unfold lastToken? at found
  have nonempty : piece.rdropWhile Token.isBlank ≠ [] := by
    intro empty
    rw [empty] at found
    cases found
  rw [List.getLast?_eq_some_getLast nonempty, Option.some.injEq] at found
  have visible := List.rdropWhile_last_not _ _ nonempty
  rw [found] at visible
  have front := List.dropLast_append_getLast nonempty
  rw [found] at front
  refine ⟨(piece.rdropWhile Token.isBlank).dropLast, piece.rtakeWhile Token.isBlank, ?_,
    by simpa using visible, fun token member => List.mem_rtakeWhile_imp member⟩
  conv_lhs => rw [← List.rdropWhile_append_rtakeWhile (p := Token.isBlank) (l := piece), ← front]
  simp

theorem lastToken?_eq_none_iff {piece : List Token} :
    lastToken? piece = none ↔ ∀ token ∈ piece, token.isBlank = true := by
  rw [lastToken?, List.getLast?_eq_none_iff, List.rdropWhile_eq_nil_iff]

/-! ## Arguments -/

/-- Whether a piece ends, blanks aside, in a comment that ends in no blank. -/
def endsInComment (piece : List Token) : Bool :=
  match lastToken? piece with
  | some (.comment letters) => trimEnd letters = letters
  | _ => false

/-- The text of the argument that a piece holds: the piece without the blanks at its ends. A newline
that directly closes a comment at the end stays. -/
def argumentText (piece : List Token) : List Char :=
  if endsInComment piece then trim (source piece) ++ ['\n'] else trim (source piece)

/-- A piece in its place, before the comma or the parenthesis that ends it. -/
def Delimited (piece : List Token) : Prop :=
  ∃ text rest, Reads text piece rest ∧ (rest.head? = some ',' ∨ rest.head? = some ')')

private theorem delimited_of_listTokens {text rest : List Char} {first : List Token}
    {later : List (List Token)} (reads : Reads text (listTokens first later) rest) :
    ∀ piece ∈ first :: later, Delimited piece := by
  induction later generalizing first text with
  | nil =>
    have front := (Reads.of_append reads).1
    simp only [List.flatMap_nil, List.append_nil] at front
    intro piece member
    rw [List.mem_singleton.1 member]
    exact ⟨text, _, front, .inr rfl⟩
  | cons second later ih =>
    have shape : listTokens first (second :: later) = first ++ .comma :: listTokens second later := by
      simp [listTokens]
    rw [shape] at reads
    obtain ⟨front, back⟩ := reads.of_append
    obtain ⟨behind, _, _, inner⟩ := Reads.cons_iff.1 back
    intro piece member
    rcases List.mem_cons.1 member with rfl | member
    · exact ⟨text, _, front, .inl rfl⟩
    · exact ih inner piece member

/-- The pieces of a list are in their places. -/
theorem delimited_of_reads {text rest : List Char} {pieces : List (List Token)}
    (reads : Reads text (List.intercalate [.comma] pieces ++ [.closing]) rest) :
    ∀ piece ∈ pieces, Delimited piece := by
  cases pieces with
  | nil => simp
  | cons first later =>
    rw [← listTokens_eq_intercalate] at reads
    exact delimited_of_listTokens reads

/-- A comment in a delimited piece is closed in it: blanks behind it begin with its newline. -/
theorem Delimited.newline {front trail : List Token} {letters : List Char}
    (delimited : Delimited (front ++ .comment letters :: trail)) :
    ∃ later, trail = .symbol '\n' :: later := by
  obtain ⟨text, rest, reads, follows⟩ := delimited
  obtain ⟨behind, whole, stands, later⟩ := Reads.cons_iff.1 reads.of_append.2
  have next : behind.head? = none ∨ behind.head? = some '\n' := by
    cases stands with
    | comment _ ends => exact ends
  cases trail with
  | nil =>
    cases later
    rcases follows with follows | follows <;> rw [follows] at next <;> simp at next
  | cons token trail =>
    obtain ⟨behind', rfl, stands', _⟩ := Reads.cons_iff.1 later
    obtain ⟨d, ds, shape⟩ := List.exists_cons_of_ne_nil stands'.text_ne_nil
    rw [shape] at next
    obtain rfl : d = '\n' := by simpa using next
    exact ⟨trail, by rw [stands'.eq_symbol shape rfl (by decide) rfl rfl]⟩

private theorem lastCommentEnd_eq_none_iff {tokens : List Token} :
    lastCommentEnd tokens = none ↔ ∀ token ∈ tokens, token.isComment = false := by
  induction tokens with
  | nil => simp [lastCommentEnd]
  | cons token tokens ih =>
    unfold lastCommentEnd
    cases inner : lastCommentEnd tokens with
    | some count =>
      rw [inner] at ih
      simp only [reduceCtorEq, false_iff] at ih
      simp [ih]
    | none =>
      rw [inner] at ih
      cases token with
      | comment => simp [Token.isComment]
      | _ => simpa [Token.isComment] using ih.1 rfl

/-- The end of the last comment, found from the tokens. -/
private theorem lastCommentEnd_eq_some_iff {tokens : List Token} {count : Nat} :
    lastCommentEnd tokens = some count ↔
      ∃ front letters trail, tokens = front ++ .comment letters :: trail ∧
        (∀ token ∈ trail, token.isComment = false) ∧ count = (source front ++ letters).length := by
  induction tokens generalizing count with
  | nil => simp [lastCommentEnd]
  | cons token tokens ih =>
    constructor
    · intro found
      unfold lastCommentEnd at found
      cases inner : lastCommentEnd tokens with
      | some later =>
        obtain ⟨front, letters, trail, rfl, free, rfl⟩ := ih.1 inner
        rw [inner] at found
        cases found
        exact ⟨token :: front, letters, trail, rfl, free, by simp⟩
      | none =>
        have free := lastCommentEnd_eq_none_iff.1 inner
        rw [inner] at found
        cases token with
        | comment letters =>
          cases found
          exact ⟨[], letters, tokens, rfl, free, rfl⟩
        | _ => cases found
    · rintro ⟨front, letters, trail, shape, free, rfl⟩
      cases front with
      | nil =>
        obtain ⟨rfl, rfl⟩ := List.cons.inj shape
        unfold lastCommentEnd
        rw [lastCommentEnd_eq_none_iff.2 free]
        rfl
      | cons token' front =>
        obtain ⟨rfl, rfl⟩ := List.cons.inj shape
        unfold lastCommentEnd
        rw [ih.2 ⟨front, letters, trail, rfl, free, rfl⟩]
        simp

/-- Trimming the text of tokens trims the text of the last one that is not a blank. -/
theorem Reads.trimEnd_source {text rest : List Char} {front trail : List Token} {last : Token}
    (reads : Reads text (front ++ last :: trail) rest) (visible : last.isBlank = false)
    (blank : ∀ token ∈ trail, token.isBlank = true) :
    trimEnd (source (front ++ last :: trail)) = source front ++ trimEnd last.text := by
  obtain ⟨_, _, stands, _⟩ := cons_iff.1 reads.of_append.2
  have behind : trimEnd (last.text ++ source trail) = trimEnd last.text :=
    trimEnd_append_of_allBlank _ (allBlank_source blank)
  rw [source_append, source_cons, trimEnd_append, behind]
  rw [behind]
  exact stands.trimEnd_text_ne_nil visible

theorem endsInComment_iff {piece : List Token} :
    endsInComment piece = true ↔
      ∃ front letters trail, piece = front ++ .comment letters :: trail ∧
        (∀ token ∈ trail, token.isBlank = true) ∧ trimEnd letters = letters := by
  unfold endsInComment
  constructor
  · intro ends
    split at ends
    · rename_i letters found
      obtain ⟨front, trail, same, _, blank⟩ := exists_of_lastToken? found
      exact ⟨front, letters, trail, same, blank, by simpa using ends⟩
    · cases ends
  · rintro ⟨front, letters, trail, rfl, blank, tight⟩
    rw [lastToken?_append (by rfl) blank]
    simpa using tight

/-- Where the last comment ends at the end of the trimmed piece, it is its last token. -/
private theorem ends_at_comment_iff {piece : List Token} (delimited : Delimited piece) :
    (lastCommentEnd piece = some (trimEnd (source piece)).length ∧
        ((source piece).drop (trimEnd (source piece)).length).head? = some '\n') ↔
      endsInComment piece = true := by
  obtain ⟨text, rest, reads, _⟩ := id delimited
  rw [endsInComment_iff]
  constructor
  · rintro ⟨atEnd, _⟩
    obtain ⟨front, letters, trail, rfl, _, length⟩ := lastCommentEnd_eq_some_iff.1 atEnd
    obtain ⟨blanks, whole, blank⟩ := trimEnd_append_drop (source (front ++ .comment letters :: trail))
    have split : source (front ++ .comment letters :: trail) =
        (source front ++ letters) ++ source trail := by simp [Token.text]
    obtain ⟨kept, rfl⟩ := List.append_inj (split.symm.trans whole) length.symm
    obtain ⟨_, _, stands, later⟩ := Reads.cons_iff.1 reads.of_append.2
    refine ⟨front, letters, trail, rfl, later.isBlank_of_allBlank blank, ?_⟩
    have remains : trimEnd letters ≠ [] := stands.trimEnd_text_ne_nil rfl
    have again := trimEnd_trimEnd (source (front ++ .comment letters :: trail))
    rw [← kept, trimEnd_append remains] at again
    exact List.append_cancel_left again
  · rintro ⟨front, letters, trail, rfl, blank, tight⟩
    obtain ⟨later, rfl⟩ := delimited.newline
    have body := reads.trimEnd_source rfl blank
    rw [show Token.text (.comment letters) = letters from rfl, tight] at body
    rw [body]
    refine ⟨lastCommentEnd_eq_some_iff.2 ⟨front, letters, _, rfl, fun token member => ?_, rfl⟩, ?_⟩
    · have := blank token member
      cases token <;> first | rfl | cases this
    · simp [Token.text]

/-- What is kept at the end of a piece. -/
theorem Piece.Holds.kept {piece : Piece} {tokens : List Token} (holds : piece.Holds tokens)
    (delimited : Delimited tokens) :
    piece.kept =
      if endsInComment tokens then trimEnd (source tokens) ++ ['\n'] else trimEnd (source tokens) := by
  unfold Piece.kept
  simp only [holds.raw, holds.commentEnd, ends_at_comment_iff delimited]

/-- What a piece holds besides blanks outlasts trimming. -/
theorem Reads.trim_source_ne_nil {text rest : List Char} {tokens : List Token} {token : Token}
    (reads : Reads text tokens rest) (member : token ∈ tokens) (visible : token.isBlank = false) :
    trim (source tokens) ≠ [] := by
  rw [trim_eq_trimStart_trimEnd, ne_eq, trimStart_eq_nil_iff, allBlank_trimEnd]
  intro blank
  have := reads.isBlank_of_allBlank blank token member
  rw [visible] at this
  cases this

/-- The argument of a piece is the text that the grammar says. -/
theorem Piece.Holds.argument_text {piece : Piece} {tokens : List Token} (holds : piece.Holds tokens)
    (delimited : Delimited tokens) : piece.argument.text = argumentText tokens := by
  unfold Piece.argument argumentText
  dsimp only
  rw [holds.kept delimited]
  split
  · rename_i ends
    obtain ⟨text, rest, reads, _⟩ := delimited
    obtain ⟨front, letters, trail, rfl, _, _⟩ := endsInComment_iff.1 ends
    have member : Token.comment letters ∈ front ++ .comment letters :: trail := by simp
    have remains := reads.trim_source_ne_nil member rfl
    rw [trim_eq_trimStart_trimEnd] at remains ⊢
    rw [trimStart_append remains]
  · rw [trim_eq_trimStart_trimEnd]

end PortableSql.Query
