import PortableSql.Proofs.Placeholder.QuerySkeleton
import PortableSql.Proofs.Query.Trimming

/-!
# Splitting by characters

An argument list can be split without knowing words and numbers: quoted spans and comments are skipped, and
the parentheses among all other characters are counted (`splitCharacters`). Who reads the list in tokens comes
to the same pieces and the same end (`splitCharacters_eq_splitPieces`), and this end is the one parenthesis
that closes what is open in front of the list (`splitCharacters_closed_iff`).
-/
namespace PortableSql.Query

open Text

/-- The first quoted span or comment of a text, or else its first character. -/
def nextLexeme? (c : Char) (text : List Char) : Option (Token × List Char) :=
  if isQuote c ∨ c = '-' ∧ text.head? = some '-' then nextToken? c text else some (.symbol c, text)

theorem nextLexeme?_length {c : Char} {text rest : List Char} {lexeme : Token}
    (found : nextLexeme? c text = some (lexeme, rest)) : rest.length ≤ text.length := by
  unfold nextLexeme? at found
  split at found
  · exact nextToken?_length found
  · cases found
    exact Nat.le_refl _

/-- Splits the text behind an opening parenthesis without knowing words and numbers; `depth` counts the
parentheses opened since. -/
def splitCharacters (depth offset : Nat) (text : List Char) : Split :=
  match text with
  | [] => ⟨.emptyAt ⟨offset, []⟩, [], .unclosed⟩
  | c :: cs =>
    match _found : nextLexeme? c cs with
    | none => ⟨.emptyAt ⟨offset, c :: cs⟩, [], .unterminated c ⟨offset, c :: cs⟩⟩
    | some (lexeme, rest) =>
      let next := offset + byteLength lexeme.text
      if depth = 0 ∧ lexeme = .closing then
        ⟨.emptyAt ⟨offset, c :: cs⟩, [], .closed ⟨next, rest⟩⟩
      else
        let split := splitCharacters (depthBehind depth lexeme) next rest
        if depth = 0 ∧ lexeme = .comma then
          ⟨.emptyAt ⟨offset, c :: cs⟩, split.pieces, split.ending⟩
        else
          split.extend ⟨offset, c :: cs⟩ lexeme
termination_by text.length
decreasing_by
  have := nextLexeme?_length _found
  simp only [List.length_cons]
  omega

namespace Token

/-- A quoted span, a comment, or a character at which neither begins, before what follows it. -/
inductive IsLexeme : Token → Option Char → Prop
  | quoted {span : List Char} {next : Option Char} (stands : (quoted span).StandsBefore next) :
      IsLexeme (.quoted span) next
  | comment {span : List Char} {next : Option Char} (stands : (comment span).StandsBefore next) :
      IsLexeme (.comment span) next
  | character {c : Char} {next : Option Char} (noQuote : isQuote c = false)
      (noComment : c = '-' → next ≠ some '-') : IsLexeme (.symbol c) next

/-- What is left to see of a lexeme when quoted spans and comments are skipped. -/
def shown : Token → List Char
  | .symbol c => [c]
  | _ => []

end Token

/-- What is left to see of a text up to the place where `rest` stands, when quoted spans and comments are
skipped. -/
inductive Shows : List Char → List Char → List Char → Prop
  | nil (rest : List Char) : Shows rest [] rest
  | cons {lexeme : Token} {behind shown rest : List Char} (first : lexeme.IsLexeme behind.head?)
      (later : Shows behind shown rest) : Shows (lexeme.text ++ behind) (lexeme.shown ++ shown) rest

/-- Characters that close every parenthesis that is open: so many in front of them, and those that they open
themselves. None of them closes a parenthesis that is not open. -/
structure ClosesAll (depth : Nat) (shown : List Char) : Prop where
  all : shown.count ')' = depth + shown.count '('
  fronts : ∀ n, (shown.take n).count ')' ≤ depth + (shown.take n).count '('

variable {depth offset : Nat} {c : Char} {cs rest : List Char} {lexeme : Token}

/-! ## One step -/

theorem nextLexeme?_eq_some_iff :
    nextLexeme? c cs = some (lexeme, rest) ↔
      lexeme.text ++ rest = c :: cs ∧ lexeme.IsLexeme rest.head? := by
  constructor
  · intro found
    unfold nextLexeme? at found
    split at found
    · rename_i hidden
      obtain ⟨whole, stands⟩ := nextToken?_eq_some_iff.1 found
      refine ⟨whole, ?_⟩
      cases stands with
      | quoted opens inside closes => exact .quoted (.quoted opens inside closes)
      | comment line ends => exact .comment (.comment line ends)
      | number digit =>
        cases whole
        obtain ⟨noQuote, noDash, _⟩ := isDigit_excludes digit
        simp [noQuote, noDash] at hidden
      | word start =>
        cases whole
        obtain ⟨noQuote, noDash, _⟩ := isNameStart_excludes start
        simp [noQuote, noDash] at hidden
      | symbol noQuote _ _ noComment => exact .character noQuote noComment
    · rename_i plain
      cases found
      rw [not_or, Bool.not_eq_true] at plain
      exact ⟨rfl, .character plain.1 fun dash second => plain.2 ⟨dash, second⟩⟩
  · rintro ⟨whole, isLexeme⟩
    cases isLexeme with
    | quoted stands =>
      have found := nextToken?_of_standsBefore stands whole
      cases stands with
      | quoted opens =>
        cases whole
        rw [nextLexeme?, if_pos (.inl opens), found]
    | comment stands =>
      have found := nextToken?_of_standsBefore stands whole
      cases stands with
      | comment =>
        cases whole
        rw [nextLexeme?, if_pos (.inr ⟨rfl, rfl⟩), found]
    | character noQuote noComment =>
      obtain ⟨rfl, rfl⟩ := List.cons.inj whole
      refine if_neg ?_
      rintro (quote | ⟨dash, second⟩)
      · rw [noQuote] at quote
        cases quote
      · exact noComment dash second

theorem Token.IsLexeme.text_ne_nil {next : Option Char} (isLexeme : lexeme.IsLexeme next) :
    lexeme.text ≠ [] := by
  cases isLexeme with
  | quoted stands | comment stands => exact stands.text_ne_nil
  | character => exact List.cons_ne_nil _ _

/-- One step of the splitting. -/
theorem splitCharacters_cons (found : nextLexeme? c cs = some (lexeme, rest)) :
    splitCharacters depth offset (c :: cs) =
      if depth = 0 ∧ lexeme = .closing then
        ⟨.emptyAt ⟨offset, c :: cs⟩, [], .closed ⟨offset + byteLength lexeme.text, rest⟩⟩
      else
        let split := splitCharacters (depthBehind depth lexeme) (offset + byteLength lexeme.text) rest
        if depth = 0 ∧ lexeme = .comma then
          ⟨.emptyAt ⟨offset, c :: cs⟩, split.pieces, split.ending⟩
        else
          split.extend ⟨offset, c :: cs⟩ lexeme := by
  rw [splitCharacters]
  split
  · rename_i missing
    rw [found] at missing
    cases missing
  · rename_i lexeme' rest' found'
    obtain ⟨rfl, rfl⟩ : lexeme' = lexeme ∧ rest' = rest := by simpa using found'.symm.trans found
    rfl

/-! ## Words and numbers -/

theorem isNumberChar_excludes (inside : isNumberChar c = true) :
    isQuote c = false ∧ c ≠ '-' ∧ c ≠ '(' ∧ c ≠ ')' ∧ c ≠ ',' := by
  refine ⟨?_, ?_, ?_, ?_, ?_⟩
  · rw [Bool.eq_false_iff, ne_eq, isQuote_iff]
    rintro (rfl | rfl) <;> cases inside
  all_goals
    rintro rfl
    cases inside

/-- Neither a span nor a comment begins in a word or a number. -/
theorem isLexeme_of_isNumberChar (inside : isNumberChar c = true) (next : Option Char) :
    (Token.symbol c).IsLexeme next := by
  obtain ⟨noQuote, noDash, _⟩ := isNumberChar_excludes inside
  exact .character noQuote fun dash => absurd dash noDash

/-- What a token that is no comment adds to a piece. -/
theorem Piece.extend_of_not_comment (piece : Piece) (start : Fragment) {token : Token}
    (noComment : token.isComment = false) :
    piece.extend start token =
      ⟨start, token.text ++ piece.raw, piece.commentEnd.map (token.text.length + ·)⟩ := by
  unfold Piece.extend
  cases piece.commentEnd with
  | some count => rfl
  | none =>
    cases token with
    | comment => cases noComment
    | _ => rfl

/-- A character of a word or a number is added to a piece. -/
private theorem splitCharacters_letter (inside : isNumberChar c = true) (text : List Char) :
    splitCharacters depth offset (c :: text) =
      (splitCharacters depth (offset + c.utf8Size) text).extend ⟨offset, c :: text⟩ (.symbol c) := by
  obtain ⟨_, _, notOpening, notClosing, notComma⟩ := isNumberChar_excludes inside
  have found : nextLexeme? c text = some (.symbol c, text) :=
    nextLexeme?_eq_some_iff.2 ⟨rfl, isLexeme_of_isNumberChar inside _⟩
  rw [splitCharacters_cons found, if_neg (by simp [notClosing]),
    depthBehind_of_ne (by simp [notOpening]) (by simp [notClosing])]
  exact if_neg (by simp [notComma])

/-- The characters of a word or a number, added one by one, are the word or the number. -/
private theorem splitCharacters_letters {letters : List Char} {token : Token}
    (inside : ∀ c ∈ letters, isNumberChar c = true) (nonempty : letters ≠ [])
    (whole : token.text = letters) (noComment : token.isComment = false) (rest : List Char) :
    splitCharacters depth offset (letters ++ rest) =
      (splitCharacters depth (offset + byteLength letters) rest).extend ⟨offset, letters ++ rest⟩ token := by
  induction letters generalizing token offset with
  | nil => exact absurd rfl nonempty
  | cons c letters ih =>
    obtain ⟨first, later⟩ := List.forall_mem_cons.1 inside
    rw [List.cons_append, splitCharacters_letter first, Split.extend, Split.extend,
      Piece.extend_of_not_comment _ _ rfl, Piece.extend_of_not_comment _ _ noComment, whole]
    cases letters with
    | nil => rfl
    | cons d letters =>
      have word : (Token.word (d :: letters)).text = d :: letters := rfl
      rw [ih later (by simp) word rfl, Split.extend,
        Piece.extend_of_not_comment _ _ rfl, byteLength.eq_def (c :: d :: letters), Nat.add_assoc]
      simp [Token.text, Function.comp_def, Nat.add_comm, Nat.add_left_comm]

/-- Words and numbers do not matter for where a list is split and where it ends. -/
theorem splitCharacters_eq_splitPieces (depth offset : Nat) (text : List Char) :
    splitCharacters depth offset text = splitPieces depth offset text := by
  induction length : text.length using Nat.strong_induction_on generalizing depth offset text with
  | _ n ih =>
    cases text with
    | nil => rw [splitCharacters, splitPieces]
    | cons c cs =>
      cases found : nextToken? c cs with
      | none =>
        have missing : nextLexeme? c cs = none := by
          rw [nextLexeme?, if_pos (.inl (nextToken?_eq_none_iff.1 found).1), found]
        rw [splitPieces_of_none found, splitCharacters]
        split
        · rfl
        · rename_i found'
          cases missing.symm.trans found'
      | some next =>
        obtain ⟨token, rest⟩ := next
        obtain ⟨whole, stands⟩ := nextToken?_eq_some_iff.1 found
        have shorter : rest.length < n := by
          have := nextToken?_length found
          rw [← length, List.length_cons]
          omega
        -- a word or a number is one token here, and many characters there
        have letters : ∀ letters, token.text = letters → (∀ d ∈ letters, isNumberChar d = true) →
            token.isComment = false → token ≠ .opening → token ≠ .closing → token ≠ .comma →
            splitCharacters depth offset (c :: cs) = splitPieces depth offset (c :: cs) := by
          rintro _ rfl inside noComment notOpening notClosing notComma
          rw [splitPieces_cons found, if_neg (by simp [notClosing]), depthBehind_of_ne notOpening notClosing,
            ← ih rest.length shorter _ _ rest rfl, ← whole,
            splitCharacters_letters inside stands.text_ne_nil rfl noComment]
          exact (if_neg (by simp [notComma])).symm
        have lexeme : token.IsLexeme rest.head? →
            splitCharacters depth offset (c :: cs) = splitPieces depth offset (c :: cs) := by
          intro isLexeme
          rw [splitCharacters_cons (nextLexeme?_eq_some_iff.2 ⟨whole, isLexeme⟩), splitPieces_cons found,
            ih rest.length shorter _ _ rest rfl]
        cases token with
        | quoted span => exact lexeme (.quoted stands)
        | comment span => exact lexeme (.comment stands)
        | number span => exact letters _ rfl stands.number_letters rfl (by simp) (by simp) (by simp)
        | word span => exact letters _ rfl stands.word_letters rfl (by simp) (by simp) (by simp)
        | symbol d =>
          cases stands with
          | symbol noQuote _ _ noComment => exact lexeme (.character noQuote noComment)

/-- Letters, digits and points are shown. -/
private theorem Shows.letters {letters behind shown : List Char}
    (inside : ∀ c ∈ letters, isNumberChar c = true) (shows : Shows behind shown rest) :
    Shows (letters ++ behind) (letters ++ shown) rest := by
  induction letters with
  | nil => exact shows
  | cons c letters ih =>
    obtain ⟨first, later⟩ := List.forall_mem_cons.1 inside
    exact .cons (isLexeme_of_isNumberChar first (letters ++ behind).head?) (ih later)

/-- Whatever is read in tokens can be read without knowing words and numbers. -/
theorem Reads.exists_shows {text : List Char} {tokens : List Token} (reads : Reads text tokens rest) :
    ∃ shown, Shows text shown rest := by
  induction reads with
  | nil => exact ⟨[], .nil _⟩
  | @cons token _ _ _ stands _ ih =>
    obtain ⟨shown, shows⟩ := ih
    cases token with
    | quoted => exact ⟨_, .cons (.quoted stands) shows⟩
    | comment => exact ⟨_, .cons (.comment stands) shows⟩
    | number => exact ⟨_, shows.letters stands.number_letters⟩
    | word => exact ⟨_, shows.letters stands.word_letters⟩
    | symbol =>
      cases stands with
      | symbol noQuote _ _ noComment => exact ⟨_, .cons (.character noQuote noComment) shows⟩

/-! ## The end of a list -/

theorem closesAll_nil : ClosesAll depth [] ↔ depth = 0 := by
  constructor
  · intro closes
    simpa [eq_comm] using closes.all
  · rintro rfl
    exact ⟨rfl, by simp⟩

private theorem closesAll_cons {shown : List Char} :
    ClosesAll depth (c :: shown) ↔
      (c :: shown).count ')' = depth + (c :: shown).count '(' ∧
        ∀ n, (c :: shown.take n).count ')' ≤ depth + (c :: shown.take n).count '(' := by
  constructor
  · rintro ⟨all, fronts⟩
    exact ⟨all, fun n => fronts (n + 1)⟩
  · rintro ⟨all, fronts⟩
    refine ⟨all, fun n => ?_⟩
    cases n with
    | zero => exact Nat.zero_le _
    | succ n => exact fronts n

/-- One character opens a parenthesis, closes one that is open, or leaves open what is open. -/
theorem closesAll_cons_iff {shown : List Char} :
    ClosesAll depth (c :: shown) ↔
      (depth = 0 → c ≠ ')') ∧ ClosesAll (depthBehind depth (.symbol c)) shown := by
  rw [closesAll_cons]
  by_cases opens : c = '('
  · subst opens
    simp only [List.count_cons_self, List.count_cons_of_ne (show '(' ≠ ')' by decide), depthBehind]
    constructor
    · rintro ⟨all, fronts⟩
      exact ⟨fun _ => by decide, by omega, fun n => by have := fronts n; omega⟩
    · rintro ⟨_, all, fronts⟩
      exact ⟨by omega, fun n => by have := fronts n; omega⟩
  · by_cases closes : c = ')'
    · subst closes
      simp only [List.count_cons_self, List.count_cons_of_ne (show ')' ≠ '(' by decide), depthBehind]
      constructor
      · rintro ⟨all, fronts⟩
        have positive := fronts 0
        simp only [List.take_zero, List.count_nil] at positive
        exact ⟨by omega, by omega, fun n => by have := fronts n; omega⟩
      · rintro ⟨positive, all, fronts⟩
        have positive : depth ≠ 0 := fun zero => positive zero rfl
        exact ⟨by omega, fun n => by have := fronts n; omega⟩
    · simp only [List.count_cons_of_ne opens, List.count_cons_of_ne closes]
      rw [depthBehind_of_ne (by simpa using opens) (by simpa using closes)]
      constructor
      · rintro ⟨all, fronts⟩
        exact ⟨fun _ => closes, all, fronts⟩
      · rintro ⟨_, all, fronts⟩
        exact ⟨all, fronts⟩

theorem Token.IsLexeme.closesAll_iff {next : Option Char} {shown : List Char} (isLexeme : lexeme.IsLexeme next) :
    ClosesAll depth (lexeme.shown ++ shown) ↔
      (depth = 0 → lexeme ≠ .closing) ∧ ClosesAll (depthBehind depth lexeme) shown := by
  cases isLexeme with
  | quoted | comment => simp [Token.shown, depthBehind]
  | character => simpa [Token.shown] using closesAll_cons_iff

/-- Spans and comments skipped, a list ends at the parenthesis that closes the last open one. -/
theorem splitCharacters_closed_iff {text behind : List Char} :
    (∃ place, (splitCharacters depth offset text).ending = .closed ⟨place, behind⟩) ↔
      ∃ shown, Shows text shown (')' :: behind) ∧ ClosesAll depth shown := by
  constructor
  · rintro ⟨place, closed⟩
    fun_induction splitCharacters depth offset text with
    | case1 => cases closed
    | case2 => cases closed
    | case3 depth offset c cs lexeme rest found next close =>
      obtain ⟨_, rfl⟩ := Fragment.mk.inj (Ending.closed.inj closed)
      obtain ⟨whole, _⟩ := nextLexeme?_eq_some_iff.1 found
      rw [close.2] at whole
      exact ⟨[], by rw [← whole]; exact .nil _, closesAll_nil.2 close.1⟩
    | case4 depth offset c cs lexeme rest found next _ split comma ih =>
      obtain ⟨whole, isLexeme⟩ := nextLexeme?_eq_some_iff.1 found
      obtain ⟨shown, shows, closes⟩ := ih closed
      exact ⟨lexeme.shown ++ shown, whole ▸ .cons isLexeme shows,
        isLexeme.closesAll_iff.2 ⟨fun _ => by rw [comma.2]; nofun, closes⟩⟩
    | case5 depth offset c cs lexeme rest found next notClosing split _ ih =>
      obtain ⟨whole, isLexeme⟩ := nextLexeme?_eq_some_iff.1 found
      obtain ⟨shown, shows, closes⟩ := ih closed
      exact ⟨lexeme.shown ++ shown, whole ▸ .cons isLexeme shows,
        isLexeme.closesAll_iff.2 ⟨fun zero same => notClosing ⟨zero, same⟩, closes⟩⟩
  · rintro ⟨shown, shows, closes⟩
    generalize atClosing : ')' :: behind = rest at shows
    induction shows generalizing depth offset with
    | nil =>
      obtain rfl := closesAll_nil.1 closes
      have found : nextLexeme? ')' behind = some (.closing, behind) :=
        nextLexeme?_eq_some_iff.2 ⟨rfl, .character rfl fun dash => absurd dash (by decide)⟩
      rw [← atClosing, splitCharacters_cons found, if_pos ⟨rfl, rfl⟩]
      exact ⟨_, rfl⟩
    | @cons lexeme after shown rest isLexeme _ ih =>
      obtain ⟨notClosing, closes⟩ := isLexeme.closesAll_iff.1 closes
      obtain ⟨c, cs, whole⟩ := List.exists_cons_of_ne_nil (List.append_ne_nil_of_left_ne_nil isLexeme.text_ne_nil after)
      rw [whole, splitCharacters_cons (nextLexeme?_eq_some_iff.2 ⟨whole, isLexeme⟩),
        if_neg fun close => notClosing close.1 close.2]
      dsimp only
      split
      · exact ih closes atClosing
      · exact ih closes atClosing

end PortableSql.Query
