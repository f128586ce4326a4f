import Mathlib.Data.List.TakeWhile
import PortableSql.Proofs.Text.Digits
import PortableSql.Query.Token

/-!
# The lexical grammar of queries

Which texts are tokens and which character may follow each of them, said without the scanner. The
restriction on the following character makes every token the longest one that begins at its place,
so a text has at most one reading (`Reads.unique`), and the scanner finds it
(`nextToken?_eq_some_iff`). A reading may stop before the end of its text, since a text may go on
with a quote that is never closed.
-/
namespace PortableSql.Query

open Text

/-- What may stand between the quotes of a span: the quote itself only in doubled pairs. -/
inductive QuotedBody (quote : Char) : List Char → Prop
  | nil : QuotedBody quote []
  | other {c : Char} {body : List Char} (different : c ≠ quote) (rest : QuotedBody quote body) :
      QuotedBody quote (c :: body)
  | doubled {body : List Char} (rest : QuotedBody quote body) :
      QuotedBody quote (quote :: quote :: body)

namespace Token

/-- Whether a token may stand directly before a character, or at the end of a text. -/
inductive StandsBefore : Token → Option Char → Prop
  | quoted {quote : Char} {body : List Char} {next : Option Char} (opens : isQuote quote = true)
      (inside : QuotedBody quote body) (closes : next ≠ some quote) :
      StandsBefore (.quoted (quote :: (body ++ [quote]))) next
  | comment {letters : List Char} {next : Option Char} (line : ∀ d ∈ letters, d ≠ '\n')
      (ends : next = none ∨ next = some '\n') :
      StandsBefore (.comment ('-' :: '-' :: letters)) next
  | number {c : Char} {letters : List Char} {next : Option Char} (digit : isDigit c = true)
      (inside : ∀ d ∈ letters, isNumberChar d = true)
      (ends : ∀ d, next = some d → isNumberChar d = false) :
      StandsBefore (.number (c :: letters)) next
  | word {c : Char} {letters : List Char} {next : Option Char} (start : isNameStart c = true)
      (inside : ∀ d ∈ letters, isNameChar d = true)
      (ends : ∀ d, next = some d → isNameChar d = false) :
      StandsBefore (.word (c :: letters)) next
  | symbol {c : Char} {next : Option Char} (noQuote : isQuote c = false)
      (noDigit : isDigit c = false) (noLetter : isNameStart c = false)
      (noComment : c = '-' → next ≠ some '-') :
      StandsBefore (.symbol c) next

/-- A word ends before a character that continues no name. -/
theorem word_standsBefore {c next : Char} {letters : List Char} (start : isNameStart c = true)
    (inside : letters.all isNameChar = true) (ends : isNameChar next = false) :
    (word (c :: letters)).StandsBefore (some next) :=
  .word start (List.all_eq_true.1 inside) fun _ same => Option.some.inj same ▸ ends

theorem StandsBefore.text_ne_nil {token : Token} {next : Option Char}
    (stands : token.StandsBefore next) : token.text ≠ [] := by
  cases stands <;> simp [text]

end Token

/-- The text that tokens make up. -/
def source (tokens : List Token) : List Char :=
  tokens.flatMap Token.text

@[simp] theorem source_nil : source [] = [] := rfl

@[simp] theorem source_cons (token : Token) (tokens : List Token) :
    source (token :: tokens) = token.text ++ source tokens := rfl

@[simp] theorem source_append (front back : List Token) :
    source (front ++ back) = source front ++ source back := by
  simp [source]

/-- A text begins with tokens, behind which `rest` stands. -/
inductive Reads : List Char → List Token → List Char → Prop
  | nil (rest : List Char) : Reads rest [] rest
  | cons {token : Token} {tokens : List Token} {behind rest : List Char}
      (stands : token.StandsBefore behind.head?) (later : Reads behind tokens rest) :
      Reads (token.text ++ behind) (token :: tokens) rest

/-! ## The scanner finds the token that the grammar describes -/

theorem isQuote_iff {c : Char} : isQuote c = true ↔ c = '\'' ∨ c = '"' := by
  simp [isQuote]

theorem isNameStart_iff {c : Char} :
    isNameStart c = true ↔
      (97 ≤ c.toNat ∧ c.toNat ≤ 122) ∨ (65 ≤ c.toNat ∧ c.toNat ≤ 90) ∨ c = '_' := by
  simp only [isNameStart, Bool.or_eq_true, Bool.and_eq_true, decide_eq_true_eq, beq_iff_eq,
    or_assoc]
  exact Iff.rfl

/-- The characters that begin a number are none that begin a span, a comment or a word. -/
theorem isDigit_excludes {c : Char} (digit : isDigit c = true) :
    isQuote c = false ∧ c ≠ '-' ∧ isNameStart c = false := by
  have bounds := isDigit_iff.1 digit
  refine ⟨?_, ?_, ?_⟩
  · rw [Bool.eq_false_iff, ne_eq, isQuote_iff]
    rintro (rfl | rfl) <;> simp at bounds
  · rintro rfl
    simp at bounds
  · rw [Bool.eq_false_iff, ne_eq, isNameStart_iff]
    rintro (_ | _ | rfl)
    · omega
    · omega
    · simp at bounds

/-- The characters that begin a word are none that begin a span, a comment or a number. -/
theorem isNameStart_excludes {c : Char} (start : isNameStart c = true) :
    isQuote c = false ∧ c ≠ '-' ∧ isDigit c = false := by
  refine ⟨?_, ?_, ?_⟩
  · rw [Bool.eq_false_iff, ne_eq, isQuote_iff]
    rintro (rfl | rfl) <;> simp [isNameStart] at start
  · rintro rfl
    simp [isNameStart] at start
  · rw [Bool.eq_false_iff, ne_eq]
    intro digit
    rw [(isDigit_excludes digit).2.2] at start
    cases start

theorem splitQuoted?_cons_of_ne {quote c : Char} (different : c ≠ quote) (text : List Char) :
    splitQuoted? quote (c :: text) =
      (splitQuoted? quote text).map fun (body, after) => (c :: body, after) := by
  cases text with
  | nil => simp [splitQuoted?, different]
  | cons d rest => simp [splitQuoted?, different]

theorem splitQuoted?_of_body {quote : Char} {body rest : List Char}
    (inside : QuotedBody quote body) (closes : rest.head? ≠ some quote) :
    splitQuoted? quote (body ++ quote :: rest) = some (body ++ [quote], rest) := by
  induction inside with
  | nil =>
    cases rest with
    | nil => simp [splitQuoted?]
    | cons d rest =>
      have different : d ≠ quote := by simpa using closes
      simp [splitQuoted?, different]
  | other different _ ih =>
    rw [List.cons_append, splitQuoted?_cons_of_ne different, ih]
    rfl
  | doubled _ ih =>
    simp only [List.cons_append, splitQuoted?, if_true]
    rw [ih]
    rfl

theorem splitQuoted?_body {quote : Char} {text span rest : List Char}
    (found : splitQuoted? quote text = some (span, rest)) :
    ∃ body, span = body ++ [quote] ∧ QuotedBody quote body ∧ rest.head? ≠ some quote := by
  fun_induction splitQuoted? quote text generalizing span with
  | case1 => cases found
  | case2 => cases found; exact ⟨[], rfl, .nil, by simp⟩
  | case3 => cases found
  | case4 after ih =>
    obtain ⟨⟨b, r⟩, inner, same⟩ := Option.map_eq_some_iff.1 found
    cases same
    obtain ⟨body, rfl, inside, closes⟩ := ih inner
    exact ⟨quote :: quote :: body, rfl, .doubled inside, closes⟩
  | case5 d after different =>
    cases found
    exact ⟨[], rfl, .nil, by simpa using different⟩
  | case6 c d after different ih =>
    obtain ⟨⟨b, r⟩, inner, same⟩ := Option.map_eq_some_iff.1 found
    cases same
    obtain ⟨body, rfl, inside, closes⟩ := ih inner
    exact ⟨c :: body, rfl, .other different inside, closes⟩

theorem head?_dropWhile_eq_false {α : Type} {test : α → Bool} {text : List α} {d : α}
    (head : (text.dropWhile test).head? = some d) : test d = false := by
  have := List.head?_dropWhile_not test text
  rw [head] at this
  simpa using this

/-- The scanner gives a token that may stand where it found it. -/
theorem nextToken?_standsBefore {c : Char} {text rest : List Char} {token : Token}
    (found : nextToken? c text = some (token, rest)) : token.StandsBefore rest.head? := by
  unfold nextToken? at found
  split at found
  · rename_i opens
    obtain ⟨⟨span, after⟩, inner, same⟩ := Option.map_eq_some_iff.1 found
    cases same
    obtain ⟨body, rfl, inside, closes⟩ := splitQuoted?_body inner
    exact .quoted opens inside closes
  · rename_i noQuote
    split at found
    · rename_i dashes
      obtain ⟨rfl, second⟩ := dashes
      cases found
      obtain ⟨letters, rfl⟩ : ∃ letters, text = '-' :: letters := by
        cases text with
        | nil => cases second
        | cons d letters => exact ⟨letters, by simpa using second⟩
      have line : staysOnLine '-' = true := rfl
      rw [List.takeWhile_cons_of_pos line, List.dropWhile_cons_of_pos line]
      refine .comment (fun d member => ?_) ?_
      · simpa [staysOnLine] using List.mem_takeWhile_imp member
      · cases next : (letters.dropWhile staysOnLine).head? with
        | none => exact .inl rfl
        | some d => exact .inr (by simpa [staysOnLine] using head?_dropWhile_eq_false next)
    · rename_i noDashes
      split at found
      · rename_i digit
        cases found
        exact .number digit (fun d member => List.mem_takeWhile_imp member)
          fun d => head?_dropWhile_eq_false
      · rename_i noDigit
        split at found
        · rename_i start
          cases found
          exact .word start (fun d member => List.mem_takeWhile_imp member)
            fun d => head?_dropWhile_eq_false
        · rename_i noStart
          cases found
          refine .symbol (by simpa using noQuote) (by simpa using noDigit) (by simpa using noStart) ?_
          exact fun dash second => noDashes ⟨dash, second⟩

theorem takeWhile_append_of_ends {test : Char → Bool} {letters rest : List Char}
    (inside : ∀ d ∈ letters, test d = true) (ends : ∀ d, rest.head? = some d → test d = false) :
    (letters ++ rest).takeWhile test = letters ∧ (letters ++ rest).dropWhile test = rest := by
  rw [List.takeWhile_append_of_pos inside, List.dropWhile_append_of_pos inside]
  cases rest with
  | nil => simp
  | cons d rest => simp [ends d rfl]

/-- The scanner finds every token that may stand where it is. -/
theorem nextToken?_of_standsBefore {c : Char} {text rest : List Char} {token : Token}
    (stands : token.StandsBefore rest.head?) (whole : token.text ++ rest = c :: text) :
    nextToken? c text = some (token, rest) := by
  cases stands with
  | @quoted quote body _ opens inside closes =>
    obtain ⟨rfl, rfl⟩ := List.cons.inj whole
    have span := splitQuoted?_of_body inside closes
    simp [nextToken?, opens, span]
  | @comment letters _ line ends =>
    obtain ⟨rfl, rfl⟩ := List.cons.inj whole
    have noQuote : isQuote '-' = false := rfl
    have stays : ∀ d ∈ '-' :: letters, staysOnLine d = true := by
      intro d member
      rcases List.mem_cons.1 member with rfl | member
      · rfl
      · simpa [staysOnLine] using line d member
    have stops : ∀ d, rest.head? = some d → staysOnLine d = false := by
      intro d next
      rcases ends with none | newline
      · rw [next] at none; cases none
      · rw [next] at newline; cases newline; rfl
    obtain ⟨taken, dropped⟩ := takeWhile_append_of_ends stays stops
    change nextToken? '-' ('-' :: letters ++ rest) = _
    unfold nextToken?
    rw [taken, dropped]
    simp [noQuote]
  | @number d letters _ digit inside ends =>
    obtain ⟨rfl, rfl⟩ := List.cons.inj whole
    obtain ⟨noQuote, noDash, _⟩ := isDigit_excludes digit
    obtain ⟨taken, dropped⟩ := takeWhile_append_of_ends inside ends
    simp [nextToken?, noQuote, noDash, digit, taken, dropped]
  | @word d letters _ start inside ends =>
    obtain ⟨rfl, rfl⟩ := List.cons.inj whole
    obtain ⟨noQuote, noDash, noDigit⟩ := isNameStart_excludes start
    obtain ⟨taken, dropped⟩ := takeWhile_append_of_ends inside ends
    simp [nextToken?, noQuote, noDash, noDigit, start, taken, dropped]
  | symbol noQuote noDigit noLetter noComment =>
    obtain ⟨rfl, rfl⟩ := List.cons.inj whole
    simpa [nextToken?, noQuote, noDigit, noLetter] using noComment

/-- The scanner and the grammar agree on the first token of a text. -/
theorem nextToken?_eq_some_iff {c : Char} {text rest : List Char} {token : Token} :
    nextToken? c text = some (token, rest) ↔
      token.text ++ rest = c :: text ∧ token.StandsBefore rest.head? :=
  ⟨fun found => ⟨nextToken?_append found, nextToken?_standsBefore found⟩,
    fun ⟨whole, stands⟩ => nextToken?_of_standsBefore stands whole⟩

/-- A character that begins no other token is a token. -/
theorem Token.StandsBefore.eq_symbol {token : Token} {next : Option Char} {c : Char}
    {letters : List Char} (stands : token.StandsBefore next) (shape : token.text = c :: letters)
    (noQuote : isQuote c = false) (noDash : c ≠ '-') (noDigit : isDigit c = false)
    (noLetter : isNameStart c = false) : token = .symbol c := by
  cases stands with
  | quoted opens =>
    cases shape
    rw [noQuote] at opens
    cases opens
  | comment =>
    cases shape
    exact absurd rfl noDash
  | number digit =>
    cases shape
    rw [noDigit] at digit
    cases digit
  | word start =>
    cases shape
    rw [noLetter] at start
    cases start
  | symbol =>
    cases shape
    rfl

/-! ## Readings -/

namespace Reads

variable {text middle rest : List Char} {token : Token} {tokens later : List Token}

/-- Tokens are lossless. -/
theorem lossless (reads : Reads text tokens rest) : source tokens ++ rest = text := by
  induction reads with
  | nil => rfl
  | cons stands _ ih => rw [source_cons, List.append_assoc, ih]

/-- The tokens of a whole text make it up. -/
theorem source_eq (reads : Reads text tokens []) : source tokens = text := by
  rw [← reads.lossless, List.append_nil]

theorem cons_iff :
    Reads text (token :: tokens) rest ↔
      ∃ behind, text = token.text ++ behind ∧ token.StandsBefore behind.head? ∧
        Reads behind tokens rest := by
  constructor
  · intro reads
    cases reads with
    | cons stands later => exact ⟨_, rfl, stands, later⟩
  · rintro ⟨behind, rfl, stands, later⟩
    exact .cons stands later

theorem append (front : Reads text tokens middle) (back : Reads middle later rest) :
    Reads text (tokens ++ later) rest := by
  induction front with
  | nil => exact back
  | cons stands _ ih => exact .cons stands (ih back)

theorem of_append (reads : Reads text (tokens ++ later) rest) :
    Reads text tokens (source later ++ rest) ∧ Reads (source later ++ rest) later rest := by
  induction tokens generalizing text with
  | nil =>
    have whole := reads.lossless
    simp only [List.nil_append] at reads whole
    rw [whole]
    exact ⟨.nil text, reads⟩
  | cons token tokens ih =>
    rw [List.cons_append] at reads
    obtain ⟨behind, rfl, stands, rest⟩ := cons_iff.1 reads
    obtain ⟨front, back⟩ := ih rest
    exact ⟨.cons stands front, back⟩

/-- The scanner takes the first token of a reading. -/
theorem nextToken? {c : Char} (reads : Reads (c :: text) (token :: tokens) rest) :
    ∃ behind, Query.nextToken? c text = some (token, behind) ∧ Reads behind tokens rest := by
  obtain ⟨behind, whole, stands, later⟩ := cons_iff.1 reads
  exact ⟨behind, nextToken?_of_standsBefore stands whole.symm, later⟩

theorem of_nextToken? {c : Char} (found : Query.nextToken? c text = some (token, middle))
    (later : Reads middle tokens rest) : Reads (c :: text) (token :: tokens) rest := by
  obtain ⟨whole, stands⟩ := nextToken?_eq_some_iff.1 found
  exact cons_iff.2 ⟨middle, whole.symm, stands, later⟩

theorem text_ne_nil (reads : Reads text (token :: tokens) rest) : text ≠ [] := by
  obtain ⟨behind, rfl, stands, _⟩ := cons_iff.1 reads
  simp [stands.text_ne_nil]

/-- A reading that leaves all of the text takes no token. -/
theorem eq_nil (reads : Reads text tokens text) : tokens = [] := by
  cases tokens with
  | nil => rfl
  | cons token tokens =>
    have whole := reads.lossless
    obtain ⟨_, _, stands, _⟩ := cons_iff.1 reads
    exact absurd (List.append_left_eq_self.1 whole) (by simp [stands.text_ne_nil])

/-- A text has at most one reading. -/
theorem unique {other : List Token} (reads : Reads text tokens rest)
    (reads' : Reads text other rest) : tokens = other := by
  induction tokens generalizing text other with
  | nil =>
    cases reads
    rw [reads'.eq_nil]
  | cons token tokens ih =>
    obtain ⟨c, cs, rfl⟩ := List.exists_cons_of_ne_nil reads.text_ne_nil
    cases other with
    | nil =>
      have same : rest = c :: cs := by simpa using reads'.lossless
      rw [same] at reads
      exact reads.eq_nil
    | cons token' tokens' =>
      obtain ⟨behind, found, later⟩ := reads.nextToken?
      obtain ⟨behind', found', later'⟩ := reads'.nextToken?
      obtain ⟨rfl, rfl⟩ : token = token' ∧ behind = behind' := by
        simpa using found.symm.trans found'
      rw [ih later later']

/-- A reading of a part of a text is the beginning of the reading of all of it. -/
theorem exists_append (front : Reads text tokens middle) (whole : Reads text later []) :
    ∃ behind, later = tokens ++ behind := by
  induction front generalizing later with
  | nil => exact ⟨later, rfl⟩
  | @cons token tokens behind middle stands rest ih =>
    obtain ⟨c, cs, shape⟩ := List.exists_cons_of_ne_nil (Reads.cons stands rest).text_ne_nil
    rw [shape] at whole
    cases later with
    | nil => cases whole.lossless
    | cons other later =>
      obtain ⟨behind', found', whole⟩ := whole.nextToken?
      have found := nextToken?_of_standsBefore stands shape
      obtain ⟨rfl, rfl⟩ : token = other ∧ behind = behind' := by simpa using found.symm.trans found'
      obtain ⟨after, rfl⟩ := ih whole
      exact ⟨after, rfl⟩

/-- The last token of a reading may stand before what follows. -/
theorem last_standsBefore (reads : Reads text tokens rest) :
    ∀ token ∈ tokens.getLast?, token.StandsBefore rest.head? := by
  induction reads with
  | nil => simp
  | @cons token tokens behind rest stands later ih =>
    cases tokens with
    | nil =>
      cases later
      simpa using stands
    | cons second tokens =>
      rw [List.getLast?_cons_cons]
      exact ih

/-- What follows a reading may change as long as the last token still ends there. -/
theorem replace_rest (reads : Reads text tokens rest) {rest' : List Char}
    (ends : ∀ token ∈ tokens.getLast?, token.StandsBefore rest'.head?) :
    Reads (source tokens ++ rest') tokens rest' := by
  induction reads with
  | nil => exact .nil rest'
  | @cons token tokens behind rest stands later ih =>
    rw [source_cons, List.append_assoc]
    cases tokens with
    | nil => exact .cons (ends token (by simp)) (.nil rest')
    | cons second tokens =>
      have inner : ∀ token ∈ (second :: tokens).getLast?, token.StandsBefore rest'.head? := by
        intro token member
        exact ends token (by simpa [List.getLast?_cons_cons] using member)
      refine .cons ?_ (ih inner)
      -- the second token is not empty, so the first one is followed as before
      have whole := later.lossless
      obtain ⟨_, _, stands', _⟩ := cons_iff.1 later
      obtain ⟨d, ds, first⟩ := List.exists_cons_of_ne_nil stands'.text_ne_nil
      rw [← whole] at stands
      simpa [source_cons, first] using stands

end Reads

end PortableSql.Query
