import PortableSql.Proofs.Placeholder.Holes
import PortableSql.Proofs.Query.CallFree

/-!
# Scans

Texts that are joined do not keep their tokens: a word may go on in the next text, two dashes may meet, a
quote may be doubled. So a joined text is scanned by its characters. The state of a scan holds all that the
text in front can still become, and a scan fails where a comment begins, where a parenthesis closes that was
never opened, where a word of some kind stands before an opening parenthesis or between delimiters. A text
whose scan ends outside of quotes has a reading (`Scan.exists_reads_of_run`), and the scan of its tokens
tells that they balance, open no call and hold no placeholder.
-/
namespace PortableSql.Query

open Placeholder Text

/-- A place of a text outside of quotes. -/
structure Place where
  /-- The number of open parentheses. -/
  depth : Nat
  /-- The name characters directly in front. -/
  word : List Char
  /-- Whether a dash stands directly in front. -/
  dash : Bool
  /-- Whether a delimiter stands in front of the word. -/
  mark : Bool
  deriving DecidableEq

/-- The words that a text must not have before an opening parenthesis, and those that it must not have
between delimiters. -/
structure Forbidden where
  calls : List Char → Bool
  marked : List Char → Bool

namespace Place

variable (forbidden : Forbidden)

/-- Whether a character that continues no name must not stand at a place. -/
def refuses (place : Place) (c : Char) : Bool :=
  (c == '-' && place.dash) || (c == '(' && forbidden.calls place.word) ||
    (c == ')' && place.depth == 0) || (c == delimiter && place.mark && forbidden.marked place.word)

/-- The place behind a symbol. -/
def behindSymbol (place : Place) (c : Char) : Place :=
  ⟨depthBehind place.depth (.symbol c), [], c == '-', c == delimiter⟩

/-- The place behind a character that is no quote. -/
def step (place : Place) (c : Char) : Option Place :=
  if isNameChar c then some { place with word := place.word ++ [c], dash := false }
  else if place.refuses forbidden c then none
  else some (place.behindSymbol c)

/-- Whether a token may stand at a place. -/
def admits (place : Place) : Token → Bool
  | .comment _ => false
  | .symbol c => !place.refuses forbidden c
  | .quoted _ | .number _ | .word _ => true

/-- The place behind a token. -/
def behind (place : Place) : Token → Place
  | .quoted _ | .comment _ => ⟨place.depth, [], false, false⟩
  | .number text | .word text =>
    if text.all isNameChar then ⟨place.depth, place.word ++ text, false, place.mark⟩
    else ⟨place.depth, text.rtakeWhile isNameChar, false, false⟩
  | .symbol c => place.behindSymbol c

/-- The place behind tokens that may stand where they are. -/
def runTokens : Place → List Token → Option Place
  | place, [] => some place
  | place, token :: tokens =>
    if place.admits forbidden token then (place.behind token).runTokens tokens else none

theorem step_of_isNameChar {c : Char} (inside : isNameChar c = true) (place : Place) :
    place.step forbidden c = some { place with word := place.word ++ [c], dash := false } := by
  rw [step, if_pos inside]

theorem step_of_not_isNameChar {c : Char} (outside : isNameChar c = false) (place : Place) :
    place.step forbidden c =
      if place.refuses forbidden c then none else some (place.behindSymbol c) := by
  rw [step, if_neg (by simp [outside])]

end Place

/-- Where a scan is: at a place outside of quotes, or in a quoted span that such a number of parentheses are
open around. -/
inductive Scan
  | code (place : Place)
  | quoted (quote : Char) (depth : Nat)

namespace Scan

variable (forbidden : Forbidden)

def advance : Scan → Char → Option Scan
  | code place, c =>
    if isQuote c then some (quoted c place.depth) else (place.step forbidden c).map code
  | quoted quote depth, c =>
    some (if c = quote then code ⟨depth, [], false, false⟩ else quoted quote depth)

def run : Scan → List Char → Option Scan
  | scan, [] => some scan
  | scan, c :: text => (scan.advance forbidden c).bind fun scan => scan.run text

@[simp] theorem run_nil (scan : Scan) : scan.run forbidden [] = some scan := rfl

@[simp] theorem run_cons (scan : Scan) (c : Char) (text : List Char) :
    scan.run forbidden (c :: text) =
      (scan.advance forbidden c).bind fun scan => scan.run forbidden text := rfl

theorem run_append (scan : Scan) (front back : List Char) :
    scan.run forbidden (front ++ back) =
      (scan.run forbidden front).bind fun scan => scan.run forbidden back := by
  induction front generalizing scan with
  | nil => rfl
  | cons c front ih =>
    rw [List.cons_append, run_cons, run_cons, Option.bind_assoc]
    exact Option.bind_congr fun next _ => ih next

theorem advance_code {c : Char} (noQuote : isQuote c = false) (place : Place) :
    (code place).advance forbidden c = (place.step forbidden c).map code := by
  rw [advance, if_neg (by simp [noQuote])]

end Scan

/-! ## One token -/

theorem isQuote_of_isNameChar {c : Char} (inside : isNameChar c = true) : isQuote c = false := by
  rcases (Bool.or_eq_true _ _).mp inside with start | digit
  · exact (isNameStart_excludes start).1
  · exact (isDigit_excludes digit).1

namespace Scan

variable {forbidden : Forbidden} {place : Place} {text : List Char}

/-- Name characters are added to the word. -/
theorem run_word (inside : ∀ c ∈ text, isNameChar c = true) (nonempty : text ≠ []) :
    (code place).run forbidden text =
      some (code ⟨place.depth, place.word ++ text, false, place.mark⟩) := by
  obtain ⟨c, text, rfl⟩ := List.exists_cons_of_ne_nil nonempty
  induction text generalizing c place with
  | nil =>
    have first := inside c (by simp)
    rw [run_cons, advance_code _ (isQuote_of_isNameChar first), Place.step_of_isNameChar _ first]
    rfl
  | cons d text ih =>
    have first := inside c (by simp)
    rw [run_cons, advance_code _ (isQuote_of_isNameChar first), Place.step_of_isNameChar _ first,
      Option.map_some, Option.bind_some, ih d (fun e member => inside e (by simp [member])) (by simp)]
    simp

/-- Behind a point the word begins anew. -/
theorem run_point (place : Place) :
    (code place).run forbidden ['.'] = some (code ⟨place.depth, [], false, false⟩) := by
  rw [run_cons, advance_code _ (by rfl), Place.step_of_not_isNameChar _ (by rfl)]
  rfl

/-- A number with a point leaves what stands behind the last one. -/
theorem run_number (inside : ∀ c ∈ text, isNumberChar c = true) (points : text.all isNameChar = false) :
    (code place).run forbidden text =
      some (code ⟨place.depth, text.rtakeWhile isNameChar, false, false⟩) := by
  induction text using List.reverseRecOn generalizing place with
  | nil => cases points
  | append_singleton text c ih =>
    have insideText : ∀ d ∈ text, isNumberChar d = true := fun d member => inside d (by simp [member])
    by_cases last : isNameChar c = true
    · have pointsText : text.all isNameChar = false := by simpa [last] using points
      rw [run_append, ih insideText pointsText, Option.bind_some, List.rtakeWhile_concat_pos _ _ _ last,
        run_word (by simpa using last) (by simp)]
    · obtain rfl : c = '.' := by simpa [isNumberChar, last] using inside c (by simp)
      rw [List.rtakeWhile_concat_neg _ _ _ (by simp [last]), run_append]
      by_cases letters : text.all isNameChar = true
      · cases text with
        | nil => exact @run_point forbidden place
        | cons d text =>
          rw [run_word (List.all_eq_true.1 letters) (by simp), Option.bind_some, run_point]
      · rw [ih insideText (by simpa using letters), Option.bind_some, run_point]

/-- What stands behind the last point of a number with points. -/
theorem exists_point (inside : ∀ c ∈ text, isNumberChar c = true) (points : text.all isNameChar = false) :
    ∃ front, text = front ++ '.' :: text.rtakeWhile isNameChar := by
  induction text using List.reverseRecOn with
  | nil => cases points
  | append_singleton text c ih =>
    by_cases last : isNameChar c = true
    · obtain ⟨front, same⟩ := ih (fun d member => inside d (by simp [member]))
        (by simpa [last] using points)
      rw [List.rtakeWhile_concat_pos _ _ _ last]
      exact ⟨front, by rw [← List.cons_append, ← List.append_assoc, ← same]⟩
    · obtain rfl : c = '.' := by simpa [isNumberChar, last] using inside c (by simp)
      rw [List.rtakeWhile_concat_neg _ _ _ (by simp [last])]
      exact ⟨text, rfl⟩

/-- A span leaves nothing. -/
theorem run_quoted {quote : Char} {body : List Char} {depth : Nat} (opens : isQuote quote = true)
    (inside : QuotedBody quote body) :
    (quoted quote depth).run forbidden (body ++ [quote]) = some (code ⟨depth, [], false, false⟩) := by
  induction inside with
  | nil => simp [advance]
  | other different _ ih =>
    rw [List.cons_append, run_cons, advance, if_neg different, Option.bind_some, ih]
  | doubled _ ih =>
    rw [List.cons_append, List.cons_append, run_cons, advance, if_pos rfl, Option.bind_some, run_cons,
      advance, if_pos opens, Option.bind_some, ih]

/-- A symbol that may stand where it is. -/
theorem run_symbol {c : Char} (noQuote : isQuote c = false) (noName : isNameChar c = false) :
    (code place).run forbidden [c] =
      if place.refuses forbidden c then none else some (code (place.behindSymbol c)) := by
  rw [run_cons, advance_code _ noQuote, Place.step_of_not_isNameChar _ noName]
  split <;> rfl

/-- The scan of a token. -/
theorem run_token {token : Token} {next : Option Char} (stands : token.StandsBefore next) :
    (code place).run forbidden token.text =
      if place.admits forbidden token then some (code (place.behind token)) else none := by
  cases stands with
  | quoted opens inside =>
    rw [Token.text, run_cons, advance, if_pos opens, Option.bind_some, run_quoted opens inside]
    rfl
  | comment =>
    -- the second dash is refused
    have dash : ∀ place : Place, (code place).run forbidden ['-'] =
        if place.refuses forbidden '-' then none else some (code (place.behindSymbol '-')) :=
      fun place => run_symbol (by rfl) (by rfl)
    rw [Token.text, ← List.singleton_append, run_append, dash]
    split
    · rfl
    · rw [Option.bind_some, ← List.singleton_append, run_append, dash]
      rfl
  | @number c letters _ digit inside =>
    have whole : ∀ d ∈ c :: letters, isNumberChar d = true := by
      refine List.forall_mem_cons.2 ⟨?_, inside⟩
      rw [isNumberChar, isNameChar, digit, Bool.or_true, Bool.true_or]
    rw [Token.text, Place.admits, if_pos rfl, Place.behind]
    split
    · rename_i letters
      exact run_word (List.all_eq_true.1 letters) (by simp)
    · rename_i points
      exact run_number whole (by simpa using points)
  | @word c letters _ start inside =>
    have whole : ∀ d ∈ c :: letters, isNameChar d = true := by
      refine List.forall_mem_cons.2 ⟨?_, inside⟩
      rw [isNameChar, start, Bool.true_or]
    rw [Token.text, Place.admits, if_pos rfl, Place.behind, if_pos (List.all_eq_true.2 whole)]
    exact run_word whole (by simp)
  | @symbol c _ noQuote noDigit noLetter =>
    have noName : isNameChar c = false := by rw [isNameChar, noLetter, noDigit, Bool.or_false]
    rw [Token.text, run_symbol noQuote noName, Place.admits, Place.behind]
    cases place.refuses forbidden c <;> rfl

/-! ## All tokens -/

variable {rest : List Char} {tokens : List Token}

/-- The scan of a text is that of its tokens. -/
theorem run_of_reads (reads : Reads text tokens rest) :
    (code place).run forbidden text =
      (place.runTokens forbidden tokens).bind fun place => (code place).run forbidden rest := by
  induction reads generalizing place with
  | nil => rfl
  | @cons token _ _ _ stands _ ih =>
    rw [run_append, run_token stands, Place.runTokens]
    split
    · exact ih
    · rfl

/-- A scan does not leave a span that is never closed. -/
private theorem run_unclosed {quote : Char} {depth : Nat} (opens : isQuote quote = true)
    (missing : splitQuoted? quote text = none) :
    (quoted quote depth).run forbidden text = some (quoted quote depth) := by
  fun_induction splitQuoted? quote text with
  | case1 => rfl
  | case2 => cases missing
  | case3 c different => simp [advance, different]
  | case4 rest ih =>
    have inner := ih (Option.map_eq_none_iff.1 missing)
    rw [run_cons, advance, if_pos rfl, Option.bind_some, run_cons, advance, if_pos opens,
      Option.bind_some, inner]
  | case5 => cases missing
  | case6 c d rest different ih =>
    have inner := ih (Option.map_eq_none_iff.1 missing)
    rw [run_cons, advance, if_neg different, Option.bind_some, inner]

/-- A text whose scan ends outside of quotes has a reading. -/
theorem exists_reads_of_run {after : Place} (runs : (code place).run forbidden text = some (code after)) :
    ∃ tokens, Reads text tokens [] ∧ place.runTokens forbidden tokens = some after := by
  have reads := lex_reads text
  rw [run_of_reads reads] at runs
  obtain ⟨middle, front, back⟩ := Option.bind_eq_some_iff.1 runs
  have closed : (lex text).2 = [] := by
    rcases lex_unread text with closed | ⟨c, cs, unread, missing⟩
    · exact closed
    · rw [unread] at back
      unfold nextToken? at missing
      split at missing
      · rename_i opens
        rw [run_cons, advance, if_pos opens, Option.bind_some,
          run_unclosed opens (Option.map_eq_none_iff.1 missing)] at back
        cases back
      · split at missing
        · cases missing
        · split at missing
          · cases missing
          · split at missing <;> cases missing
  rw [closed] at reads back
  cases back
  exact ⟨_, reads, front⟩

end Scan

/-! ## What a scan tells of the tokens -/

/-- Tokens that close so many parentheses and balance otherwise. -/
def Closes : Nat → List Token → Prop
  | 0, tokens => Balanced tokens
  | depth + 1, tokens =>
    ∃ inner rest, tokens = inner ++ .closing :: rest ∧ Balanced inner ∧ Closes depth rest

theorem Closes.other {depth : Nat} {token : Token} {tokens : List Token}
    (notOpening : token ≠ .opening) (notClosing : token ≠ .closing) (closes : Closes depth tokens) :
    Closes depth (token :: tokens) := by
  cases depth with
  | zero => exact Balanced.other notOpening notClosing closes
  | succ depth =>
    obtain ⟨inner, rest, rfl, balanced, closes⟩ := closes
    exact ⟨token :: inner, rest, rfl, .other notOpening notClosing balanced, closes⟩

theorem Closes.opening {depth : Nat} {tokens : List Token} (closes : Closes (depth + 1) tokens) :
    Closes depth (.opening :: tokens) := by
  obtain ⟨inner, rest, rfl, balanced, closes⟩ := closes
  cases depth with
  | zero => exact Balanced.group balanced closes
  | succ depth =>
    obtain ⟨inner', rest, rfl, balanced', closes⟩ := closes
    exact ⟨.opening :: (inner ++ .closing :: inner'), rest, by simp, .group balanced balanced', closes⟩

namespace Place

variable {forbidden : Forbidden} {place after : Place} {text rest : List Char} {tokens : List Token}

theorem runTokens_cons {token : Token} :
    place.runTokens forbidden (token :: tokens) = some after ↔
      place.admits forbidden token = true ∧
        (place.behind token).runTokens forbidden tokens = some after := by
  rw [runTokens]
  split <;> simp [*]

theorem depth_behind (place : Place) (token : Token) :
    (place.behind token).depth = depthBehind place.depth token := by
  cases token with
  | number | word =>
    rw [behind]
    split <;> rfl
  | _ => rfl

/-- Where no parenthesis is left open, all that are open are closed. -/
theorem closes_of_runTokens (runs : place.runTokens forbidden tokens = some after)
    (closed : after.depth = 0) : Closes place.depth tokens := by
  induction tokens generalizing place with
  | nil =>
    cases runs
    rw [closed]
    exact Balanced.nil
  | cons token tokens ih =>
    obtain ⟨admitted, runs⟩ := runTokens_cons.1 runs
    have later := ih runs
    rw [depth_behind] at later
    by_cases opens : token = .opening
    · subst opens
      exact .opening later
    · by_cases shuts : token = .closing
      · subst shuts
        have positive : place.depth ≠ 0 := by
          rintro zero
          simp [admits, refuses, zero] at admitted
        obtain ⟨depth, more⟩ := Nat.exists_eq_succ_of_ne_zero positive
        rw [more] at later ⊢
        exact ⟨[], tokens, rfl, .nil, later⟩
      · rw [depthBehind_of_ne opens shuts] at later
        exact later.other opens shuts

/-- A token of name characters goes on with the word. -/
theorem behind_of_name {token : Token} {next : Option Char} (stands : token.StandsBefore next)
    (inside : token.text.all isNameChar = true) :
    place.behind token = ⟨place.depth, place.word ++ token.text, false, place.mark⟩ := by
  cases stands with
  | quoted opens =>
    simp only [Token.text, List.all_cons, Bool.and_eq_true] at inside
    rw [isQuote_of_isNameChar inside.1] at opens
    cases opens
  | comment => cases inside
  | number | word => exact if_pos inside
  | symbol noQuote noDigit noLetter => simp [Token.text, isNameChar, noDigit, noLetter] at inside

/-- A word that is not empty is not gone on with. -/
theorem apart_behind {token : Token} {next : Option Char} (stands : token.StandsBefore next)
    (goesOn : (place.behind token).word ≠ []) : ∀ c, next = some c → isNameChar c = false := by
  cases stands with
  | quoted | comment | symbol => exact absurd rfl goesOn
  | number _ _ ends =>
    intro c same
    have outside := ends c same
    rw [isNumberChar, Bool.or_eq_false_iff] at outside
    exact outside.1
  | word _ _ ends => exact ends

/-- No word that is forbidden there stands before an opening parenthesis. -/
theorem calls_of_runTokens (reads : Reads text tokens rest)
    (runs : place.runTokens forbidden tokens = some after)
    (apart : place.word ≠ [] → ∀ c, text.head? = some c → isNameChar c = false) (letters : List Char)
    (pair : [.word letters, .opening] <:+: tokens) : forbidden.calls letters = false := by
  induction reads generalizing place with
  | nil => simp at pair
  | @cons token tokens next rest stands _ ih =>
    obtain ⟨_, runs⟩ := runTokens_cons.1 runs
    rcases List.infix_cons_iff.1 pair with front | inside
    · obtain ⟨rfl, tokens, rfl⟩ := List.cons_prefix_cons.1 front
      obtain ⟨admitted, _⟩ := runTokens_cons.1 runs
      have name : (Token.word letters).text.all isNameChar = true := by
        cases stands with
        | word start inside =>
          simp only [Token.text, List.all_cons, isNameChar, start, Bool.true_or, Bool.true_and]
          exact List.all_eq_true.2 inside
      have empty : place.word = [] := by
        by_contra goesOn
        cases stands with
        | word start =>
          have outside := apart goesOn _ rfl
          rw [isNameChar, start] at outside
          cases outside
      rw [behind_of_name stands name, empty] at admitted
      by_contra called
      simp [admits, refuses, Token.text, called] at admitted
    · exact ih runs (apart_behind stands) inside

/-- No name that is forbidden there stands between delimiters. -/
theorem marked_of_runTokens (named : ∀ word, forbidden.marked word = true → word.all isNameChar = true)
    (reads : Reads text tokens rest) (runs : place.runTokens forbidden tokens = some after)
    (token : Token) (triple : [.symbol delimiter, token, .symbol delimiter] <:+: tokens) :
    forbidden.marked token.text = false := by
  induction reads generalizing place with
  | nil => simp at triple
  | @cons first tokens next rest _ later ih =>
    obtain ⟨_, runs⟩ := runTokens_cons.1 runs
    rcases List.infix_cons_iff.1 triple with front | inside
    · obtain ⟨rfl, tokens, rfl⟩ := List.cons_prefix_cons.1 front
      obtain ⟨_, runs⟩ := runTokens_cons.1 runs
      obtain ⟨admitted, _⟩ := runTokens_cons.1 runs
      obtain ⟨_, _, stands, _⟩ := Reads.cons_iff.1 later
      by_contra marked
      have isMarked := eq_true_of_ne_false marked
      rw [behind_of_name stands (named _ isMarked)] at admitted
      simp [admits, refuses, behind, behindSymbol, isMarked] at admitted
    · exact ih runs inside

end Place

end PortableSql.Query
