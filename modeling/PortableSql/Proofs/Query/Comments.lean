import PortableSql.Proofs.Query.Trimming

/-!
# Places in comments

Which characters of a text stand in line comments. The lexical grammar says it by tokens (`InComment`);
a scan that knows nothing of numbers and words finds the same places (`inComment_iff`), and it goes on
across the boundaries at which texts are put together, where tokens may merge.
-/
namespace PortableSql.Query

open Text

/-- The character at a place of a text is part of a line comment. -/
def InComment (text : List Char) (place : Nat) : Prop :=
  ∃ front letters rest, Reads text (front ++ [.comment letters]) rest ∧
    (source front).length ≤ place ∧ place < (source front).length + letters.length

/-- What the next character of a text belongs to. -/
inductive Mode
  | code
  | comment
  | quoted (quote : Char)

/-- For each character, whether it is part of a comment. -/
def commentMask : Mode → List Char → List Bool
  | _, [] => []
  | .code, c :: text =>
    if c = '-' ∧ text.head? = some '-' then true :: commentMask .comment text
    else if isQuote c then false :: commentMask (.quoted c) text
    else false :: commentMask .code text
  | .comment, c :: text =>
    if c = '\n' then false :: commentMask .code text else true :: commentMask .comment text
  | .quoted quote, c :: text =>
    false :: commentMask (if c = quote then .code else .quoted quote) text

/-- Characters that neither open a quoted span nor begin a comment. -/
def IsPlain (text : List Char) : Prop :=
  ∀ c ∈ text, c ≠ '-' ∧ isQuote c = false

theorem commentMask_plain {front : List Char} (plain : IsPlain front) (text : List Char) :
    commentMask .code (front ++ text) = List.replicate front.length false ++ commentMask .code text := by
  induction front with
  | nil => rfl
  | cons c front ih =>
    obtain ⟨noDash, noQuote⟩ := plain c (by simp)
    have later := ih fun d member => plain d (by simp [member])
    simp [commentMask, noDash, noQuote, later, List.replicate_succ]

theorem commentMask_line {line : List Char} (inside : ∀ d ∈ line, d ≠ '\n') (text : List Char) :
    commentMask .comment (line ++ text) =
      List.replicate line.length true ++ commentMask .comment text := by
  induction line with
  | nil => rfl
  | cons c line ih =>
    have stays : c ≠ '\n' := inside c (by simp)
    have later := ih fun d member => inside d (by simp [member])
    simp [commentMask, stays, later, List.replicate_succ]

/-- At the end of a line the comment is over. -/
theorem commentMask_lineEnd {text : List Char}
    (ends : text.head? = none ∨ text.head? = some '\n') :
    commentMask .comment text = commentMask .code text := by
  cases text with
  | nil => rfl
  | cons c text =>
    obtain rfl : c = '\n' := by simpa using ends
    rfl

/-- A doubled quote leaves the span and enters it again. -/
private theorem commentMask_body {quote : Char} {body : List Char} (isQuote : isQuote quote = true)
    (inside : QuotedBody quote body) (text : List Char) :
    commentMask (.quoted quote) (body ++ quote :: text) =
      List.replicate (body.length + 1) false ++ commentMask .code text := by
  have noDash : quote ≠ '-' := by
    rintro rfl
    cases isQuote
  induction inside with
  | nil => simp [commentMask]
  | other different _ ih => simp [commentMask, different, ih, List.replicate_succ]
  | doubled _ ih => simp [commentMask, noDash, isQuote, ih, List.replicate_succ]

private theorem isPlain_of_name {letters : List Char}
    (inside : ∀ d ∈ letters, isNumberChar d = true) : IsPlain letters := by
  intro d member
  have kind := inside d member
  simp only [isNumberChar, isNameChar, Bool.or_eq_true, beq_iff_eq] at kind
  rcases kind with (start | digit) | rfl
  · exact ⟨(isNameStart_excludes start).2.1, (isNameStart_excludes start).1⟩
  · exact ⟨(isDigit_excludes digit).2.1, (isDigit_excludes digit).1⟩
  · exact ⟨by decide, rfl⟩

/-- The scan of a token that is no comment ends where the token ends. -/
theorem commentMask_token {token : Token} {next : Option Char} {text : List Char}
    (stands : token.StandsBefore next) (noComment : ∀ letters, token ≠ .comment letters)
    (dash : token = .symbol '-' → text.head? ≠ some '-') :
    commentMask .code (token.text ++ text) =
      List.replicate token.text.length false ++ commentMask .code text := by
  cases stands with
  | @quoted quote body _ opens inside _ =>
    have noDash : quote ≠ '-' := by
      rintro rfl
      cases opens
    have body := commentMask_body opens inside text
    simp [Token.text, commentMask, noDash, opens, body, List.replicate_succ]
  | comment => exact absurd rfl (noComment _)
  | @number c letters _ digit inside _ =>
    refine commentMask_plain (isPlain_of_name fun d member => ?_) text
    rcases List.mem_cons.1 member with rfl | member
    · simp [isNumberChar, isNameChar, digit]
    · exact inside d member
  | @word c letters _ start inside _ =>
    refine commentMask_plain (isPlain_of_name fun d member => ?_) text
    rcases List.mem_cons.1 member with rfl | member
    · simp [isNumberChar, isNameChar, start]
    · simp [isNumberChar, inside d member]
  | @symbol c _ noQuote _ _ _ =>
    have noDashes : ¬ (c = '-' ∧ text.head? = some '-') := by
      rintro ⟨rfl, second⟩
      exact dash rfl second
    simp [Token.text, commentMask, noQuote, noDashes]

/-- The scan of a comment ends inside the comment. -/
theorem commentMask_comment {letters : List Char} {next : Option Char} {text : List Char}
    (stands : Token.StandsBefore (.comment letters) next) :
    commentMask .code (letters ++ text) =
      List.replicate letters.length true ++ commentMask .comment text := by
  cases stands with
  | @comment line _ inside _ =>
    have rest := commentMask_line inside text
    simp [commentMask, rest, List.replicate_succ]

/-- The mask of tokens, said by tokens. -/
def tokenMask (tokens : List Token) : List Bool :=
  tokens.flatMap fun token => List.replicate token.text.length token.isComment

@[simp] theorem tokenMask_cons (token : Token) (tokens : List Token) :
    tokenMask (token :: tokens) =
      List.replicate token.text.length token.isComment ++ tokenMask tokens := rfl

@[simp] theorem tokenMask_append (front back : List Token) :
    tokenMask (front ++ back) = tokenMask front ++ tokenMask back := by
  simp [tokenMask]

@[simp] theorem tokenMask_length (tokens : List Token) :
    (tokenMask tokens).length = (source tokens).length := by
  simp [tokenMask, source, List.length_flatMap]

private theorem isComment_eq_false {token : Token} (noComment : ∀ letters, token ≠ .comment letters) :
    token.isComment = false := by
  cases token with
  | comment letters => exact absurd rfl (noComment letters)
  | _ => rfl

/-- The scan follows a token to its end. -/
theorem commentMask_of_standsBefore {token : Token} {text : List Char}
    (stands : token.StandsBefore text.head?) :
    commentMask .code (token.text ++ text) =
      List.replicate token.text.length token.isComment ++ commentMask .code text := by
  by_cases comment : ∃ letters, token = .comment letters
  · obtain ⟨letters, rfl⟩ := comment
    have ends : text.head? = none ∨ text.head? = some '\n' := by
      cases stands with
      | comment _ ends => exact ends
    rw [← commentMask_lineEnd ends]
    exact commentMask_comment stands
  · have noComment : ∀ letters, token ≠ .comment letters := by simpa using comment
    rw [isComment_eq_false noComment]
    refine commentMask_token stands noComment ?_
    rintro rfl
    cases stands with
    | symbol _ _ _ noDashes => exact noDashes rfl

theorem Reads.commentMask {text rest : List Char} {tokens : List Token}
    (reads : Reads text tokens rest) :
    commentMask .code text = tokenMask tokens ++ commentMask .code rest := by
  induction reads with
  | nil => rfl
  | cons stands _ ih => rw [commentMask_of_standsBefore stands, ih, tokenMask_cons, List.append_assoc]

/-- Where a span is never closed, no comment begins behind its quote. -/
private theorem commentMask_unterminated {quote : Char} {text : List Char}
    (isQuote : isQuote quote = true) (missing : splitQuoted? quote text = none) :
    true ∉ Query.commentMask (.quoted quote) text := by
  have noDash : quote ≠ '-' := by
    rintro rfl
    cases isQuote
  fun_induction splitQuoted? quote text with
  | case1 => simp [Query.commentMask]
  | case2 => cases missing
  | case3 c different => simp [Query.commentMask]
  | case4 rest ih =>
    have later := ih (by simpa using missing)
    simpa [Query.commentMask, noDash, isQuote] using later
  | case5 => cases missing
  | case6 c d rest different ih =>
    have later := ih (by simpa using missing)
    simpa [Query.commentMask, different] using later

private theorem isComment_iff {token : Token} :
    token.isComment = true ↔ ∃ letters, token = .comment letters := by
  cases token <;> simp [Token.isComment]

private theorem not_marked_of_unterminated {c : Char} {cs : List Char}
    (missing : nextToken? c cs = none) : true ∉ Query.commentMask .code (c :: cs) := by
  unfold nextToken? at missing
  split at missing
  · rename_i opens
    have noDash : c ≠ '-' := by
      rintro rfl
      cases opens
    have later := commentMask_unterminated opens (by simpa using missing)
    simpa [Query.commentMask, noDash, opens] using later
  · split at missing
    · cases missing
    · split at missing
      · cases missing
      · split at missing <;> cases missing

/-- The scan finds the places that stand in comments. -/
theorem inComment_iff {text : List Char} {place : Nat} :
    InComment text place ↔ (commentMask .code text)[place]? = some true := by
  constructor
  · rintro ⟨front, letters, rest, reads, low, high⟩
    have inside : place - (source front).length < letters.length := by omega
    rw [reads.commentMask, tokenMask_append, List.append_assoc,
      List.getElem?_append_right (by simpa), tokenMask_length, tokenMask_cons, List.append_assoc,
      List.getElem?_append_left (by simpa [Token.text]), List.getElem?_replicate]
    exact if_pos inside
  · intro marked
    induction length : text.length using Nat.strong_induction_on generalizing text place with
    | _ n ih =>
      cases text with
      | nil => cases marked
      | cons c cs =>
        cases found : nextToken? c cs with
        | none => exact absurd (List.mem_of_getElem? marked) (not_marked_of_unterminated found)
        | some pair =>
          obtain ⟨token, rest⟩ := pair
          obtain ⟨whole, stands⟩ := nextToken?_eq_some_iff.1 found
          have shorter := nextToken?_length found
          rw [← whole, commentMask_of_standsBefore stands, List.getElem?_append] at marked
          rw [List.length_replicate] at marked
          split at marked
          · rename_i first
            rw [List.getElem?_replicate, if_pos first, Option.some.injEq, isComment_iff] at marked
            obtain ⟨letters, rfl⟩ := marked
            exact ⟨[], letters, rest, .of_nextToken? found (.nil rest), Nat.zero_le _,
              by simpa [Token.text] using first⟩
          · rename_i later
            have rest' : rest.length < n := by simp at length; omega
            obtain ⟨front, letters, behind, reads, low, high⟩ := ih rest.length rest' marked rfl
            refine ⟨token :: front, letters, behind, .of_nextToken? found reads, ?_, ?_⟩
            · rw [source_cons, List.length_append]
              omega
            · rw [source_cons, List.length_append]
              omega

/-! ## Texts put together -/

private theorem not_marked_of_plain {text : List Char} (plain : IsPlain text) :
    true ∉ Query.commentMask .code text := by
  have mask := commentMask_plain plain []
  rw [List.append_nil] at mask
  simp [mask, Query.commentMask]

/-- A comment that goes on into plain text ends at the first line end. -/
private theorem marked_line_iff {text : List Char} (plain : IsPlain text) :
    true ∈ Query.commentMask .comment text ↔ text.head? ≠ none ∧ text.head? ≠ some '\n' := by
  cases text with
  | nil => simp [Query.commentMask]
  | cons c text =>
    have later : IsPlain text := fun d member => plain d (by simp [member])
    by_cases newline : c = '\n'
    · simp [Query.commentMask, newline, not_marked_of_plain later]
    · simp [Query.commentMask, newline]

/-- Where a scan of these tokens ends. -/
def modeBehind (tokens : List Token) : Mode :=
  match tokens.getLast? with
  | some (.comment _) => .comment
  | _ => .code

private theorem marked_behind_iff {text : List Char} {tokens : List Token} (plain : IsPlain text) :
    true ∈ Query.commentMask (modeBehind tokens) text ↔
      (∃ letters, tokens.getLast? = some (.comment letters)) ∧
        text.head? ≠ none ∧ text.head? ≠ some '\n' := by
  unfold modeBehind
  split
  · rename_i letters last
    rw [marked_line_iff plain]
    simp [last]
  · rename_i noComment
    constructor
    · intro marked
      exact absurd marked (not_marked_of_plain plain)
    · rintro ⟨⟨letters, last⟩, _⟩
      exact absurd last (noComment letters)

private theorem commentMask_last {last : Token} {next : Option Char} {behind : List Char}
    (plain : IsPlain behind) (stands : last.StandsBefore next) :
    Query.commentMask .code (last.text ++ behind) =
      List.replicate last.text.length last.isComment ++
        Query.commentMask (modeBehind [last]) behind := by
  by_cases comment : ∃ letters, last = .comment letters
  · obtain ⟨letters, rfl⟩ := comment
    exact commentMask_comment stands
  · have noComment : ∀ letters, last ≠ .comment letters := by simpa using comment
    have code : modeBehind [last] = .code := by
      cases last with
      | comment letters => exact absurd rfl (noComment letters)
      | _ => rfl
    rw [isComment_eq_false noComment, code]
    refine commentMask_token stands noComment fun _ dash => ?_
    have member : '-' ∈ behind := List.mem_of_mem_head? dash
    exact (plain '-' member).1 rfl

/-- The scan of a text with tokens goes on behind it in code or, where its last token is a comment,
in that comment. -/
private theorem commentMask_append {text behind : List Char} {tokens : List Token}
    (plain : IsPlain behind) (reads : Reads text tokens []) :
    Query.commentMask .code (text ++ behind) =
      tokenMask tokens ++ Query.commentMask (modeBehind tokens) behind := by
  have whole := reads.source_eq
  rcases List.eq_nil_or_concat tokens with rfl | ⟨front, last, rfl⟩
  · rw [← whole]
    rfl
  · rw [List.concat_eq_append] at reads whole ⊢
    obtain ⟨before, after⟩ := reads.of_append
    obtain ⟨_, _, stands, _⟩ := Reads.cons_iff.1 after
    have ends := before.last_standsBefore
    obtain ⟨c, letters, shape⟩ := List.exists_cons_of_ne_nil stands.text_ne_nil
    have same : (source [last] ++ []).head? = (last.text ++ behind).head? := by simp [shape]
    rw [same] at ends
    have mode : modeBehind (front ++ [last]) = modeBehind [last] := by simp [modeBehind]
    rw [← whole, source_append, source_cons, source_nil, List.append_nil, List.append_assoc,
      (before.replace_rest ends).commentMask, commentMask_last plain stands, mode, tokenMask_append]
    simp [tokenMask]

/-- Plain text behind a text with tokens is part of a comment exactly if the last token is a comment
and the plain text goes on in its line. -/
theorem inComment_behind_iff {front text behind : List Char} {tokens : List Token}
    (plainFront : IsPlain front) (plainBehind : IsPlain behind) (reads : Reads text tokens []) :
    (∃ place, front.length + text.length ≤ place ∧ InComment (front ++ (text ++ behind)) place) ↔
      (∃ letters, tokens.getLast? = some (.comment letters)) ∧
        behind.head? ≠ none ∧ behind.head? ≠ some '\n' := by
  have whole := reads.source_eq
  rw [← marked_behind_iff plainBehind, List.mem_iff_getElem?]
  have shift : ∀ place, front.length + text.length ≤ place →
      (InComment (front ++ (text ++ behind)) place ↔
        (Query.commentMask (modeBehind tokens) behind)[place - (front.length + text.length)]? =
          some true) := by
    intro place low
    rw [inComment_iff, commentMask_plain plainFront, commentMask_append plainBehind reads,
      List.getElem?_append_right (by rw [List.length_replicate]; omega), List.length_replicate,
      List.getElem?_append_right (by rw [tokenMask_length, whole]; omega), tokenMask_length, whole,
      Nat.sub_sub]
  constructor
  · rintro ⟨place, low, inside⟩
    exact ⟨_, (shift place low).1 inside⟩
  · rintro ⟨place, marked⟩
    refine ⟨front.length + text.length + place, Nat.le_add_right _ _, ?_⟩
    rw [shift _ (Nat.le_add_right _ _), Nat.add_sub_cancel_left]
    exact marked

end PortableSql.Query
