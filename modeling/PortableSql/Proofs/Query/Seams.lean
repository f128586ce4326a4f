import PortableSql.Proofs.Catalog.Template
import PortableSql.Proofs.Query.Scan

/-!
# Seams

Where the text of a template, of an argument and of the query around a call meet. A template that is scanned
at one place is scanned at all places that the one covers (`Place.Covers`), whatever arguments are put into it
(`Place.run_expandText`). With such templates the expansion of a query is scanned to its end like the query
itself (`run_evaluateParts`): no seam makes a call, a comment or a span.
-/
namespace PortableSql.Query

open Catalog Placeholder Text

/-- Whether a character is a letter. -/
def isLetter (c : Char) : Bool :=
  c.toLower.isLower

/-- Whether a word has letters alone, as the built-in names have. -/
def allLetters (word : List Char) : Bool :=
  word.all isLetter

/-- Whether a word may be the name of a portable function. -/
def looksPortable (word : List Char) : Bool :=
  allLetters word && (word.take 2).map Char.toLower == ['a', 'f']

/-- The letter case does not count. -/
theorem looksPortable_of_map_toLower {word other : List Char}
    (same : word.map Char.toLower = other.map Char.toLower) :
    looksPortable word = looksPortable other := by
  have letters : ∀ word, allLetters word = (word.map Char.toLower).all Char.isLower := by
    intro word
    rw [allLetters, List.all_map]
    rfl
  rw [looksPortable, looksPortable, letters, letters, List.map_take, List.map_take, same]

theorem allLetters_append_eq_false {front back : List Char} :
    allLetters (front ++ back) = false ↔ allLetters front = false ∨ allLetters back = false := by
  rw [allLetters, List.all_append, Bool.and_eq_false_iff]
  rfl

theorem isLetter_of_isDigit {c : Char} (digit : isDigit c = true) : isLetter c = false := by
  have bounds : 48 ≤ c.val.toNat ∧ c.val.toNat ≤ 57 := isDigit_iff.1 digit
  have same : c.toLower = c := by
    refine dif_neg fun upper => ?_
    have reaches : 65 ≤ c.val.toNat := UInt32.le_iff_toNat_le.1 upper.1
    omega
  rw [isLetter, same]
  refine Bool.and_eq_false_iff.2 (.inl (decide_eq_false fun lower => ?_))
  have reaches : 97 ≤ c.val.toNat := UInt32.le_iff_toNat_le.1 lower
  omega

/-- No name of a portable function begins at the words behind which a text may be joined. -/
def IsLoose (word : List Char) : Prop :=
  word = [] ∨ allLetters word = false

namespace Forbidden

/-- All calls of such functions are forbidden, and no placeholder. -/
def ofCalls (calls : List Char → Bool) : Forbidden :=
  ⟨calls, fun _ => false⟩

/-- Whatever calls are forbidden are names of letters, and are forbidden there too. -/
def Within (few many : Forbidden) : Prop :=
  ∀ word, few.calls word = true → allLetters word = true ∧ many.calls word = true

end Forbidden

namespace Place

variable {few many : Forbidden} {place actual next after : Place} {depth : Nat} {c : Char}

/-- What may stand at a place may stand at another one, which is so many parentheses deeper. -/
structure Covers (depth : Nat) (place actual : Place) : Prop where
  deeper : actual.depth = place.depth + depth
  word : actual.word = place.word ∨ allLetters actual.word = false
  dash : actual.dash = true → place.dash = true

theorem Covers.refuses (covers : place.Covers depth actual) (within : few.Within many)
    (fine : place.refuses many c = false)
    (unmarked : c = delimiter → actual.mark = true → few.marked actual.word = false) :
    actual.refuses few c = false := by
  obtain ⟨deeper, word, dash⟩ := covers
  simp only [Place.refuses, Bool.or_eq_false_iff, Bool.and_eq_false_iff, beq_eq_false_iff_ne] at fine ⊢
  obtain ⟨⟨⟨noDash, noCall⟩, notClosed⟩, _⟩ := fine
  refine ⟨⟨⟨?_, ?_⟩, ?_⟩, ?_⟩
  · refine noDash.imp_right fun clear => ?_
    by_contra dashed
    rw [dash (eq_true_of_ne_false dashed)] at clear
    cases clear
  · refine noCall.imp_right fun clear => ?_
    by_contra called
    obtain ⟨letters, called⟩ := within _ (eq_true_of_ne_false called)
    rcases word with same | mixed
    · rw [same, clear] at called
      cases called
    · rw [mixed] at letters
      cases letters
  · exact notClosed.imp_right fun open' => by omega
  · by_cases isDelimiter : c = delimiter
    · cases marked : actual.mark with
      | true => exact .inr (unmarked isDelimiter marked)
      | false => exact .inl (.inr rfl)
    · exact .inl (.inl isDelimiter)

theorem Covers.behindSymbol (covers : place.Covers depth actual)
    (fine : place.refuses many c = false) :
    (place.behindSymbol c).Covers depth (actual.behindSymbol c) := by
  refine ⟨?_, .inl rfl, id⟩
  have deeper := covers.deeper
  simp only [Place.refuses, Bool.or_eq_false_iff, Bool.and_eq_false_iff, beq_eq_false_iff_ne] at fine
  obtain ⟨⟨_, notClosed⟩, _⟩ := fine
  simp only [Place.behindSymbol]
  by_cases opens : c = '('
  · subst opens
    simp only [depthBehind]
    omega
  · by_cases shuts : c = ')'
    · subst shuts
      simp only [depthBehind]
      simp at notClosed
      omega
    · have notParenthesis : Token.symbol c ≠ .opening ∧ Token.symbol c ≠ .closing := by
        simp [opens, shuts]
      rw [depthBehind_of_ne notParenthesis.1 notParenthesis.2,
        depthBehind_of_ne notParenthesis.1 notParenthesis.2, deeper]

/-- Name characters are added to both words. -/
theorem Covers.append (covers : place.Covers depth actual) (letters : List Char) (mark mark' : Bool) :
    Covers depth ⟨place.depth, place.word ++ letters, false, mark⟩
      ⟨actual.depth, actual.word ++ letters, false, mark'⟩ := by
  refine ⟨covers.deeper, ?_, id⟩
  rcases covers.word with same | mixed
  · exact .inl (by rw [same])
  · exact .inr (allLetters_append_eq_false.2 (.inl mixed))

theorem Covers.step (covers : place.Covers depth actual) (within : few.Within many)
    (unmarked : c = delimiter → actual.mark = true → few.marked actual.word = false)
    (steps : place.step many c = some next) :
    ∃ next', actual.step few c = some next' ∧ next.Covers depth next' := by
  unfold Place.step at steps ⊢
  split at steps
  · rename_i inside
    cases steps
    rw [if_pos inside]
    exact ⟨_, rfl, covers.append [c] _ _⟩
  · rename_i outside
    split at steps
    · cases steps
    · rename_i fine
      cases steps
      rw [Bool.not_eq_true] at fine
      rw [if_neg outside, if_neg (by simp [covers.refuses within fine unmarked])]
      exact ⟨_, rfl, covers.behindSymbol fine⟩

theorem Covers.admits {token : Token} (covers : place.Covers depth actual) (within : few.Within many)
    (admitted : place.admits many token = true)
    (unmarked : token = .symbol delimiter → actual.mark = true → few.marked actual.word = false) :
    actual.admits few token = true := by
  cases token with
  | symbol c =>
    rw [Place.admits, Bool.not_eq_true'] at admitted ⊢
    exact covers.refuses within admitted fun same => unmarked (congrArg Token.symbol same)
  | comment => cases admitted
  | _ => rfl

theorem Covers.behind {token : Token} (covers : place.Covers depth actual)
    (admitted : place.admits many token = true) :
    (place.behind token).Covers depth (actual.behind token) := by
  cases token with
  | symbol c =>
    rw [Place.admits, Bool.not_eq_true'] at admitted
    exact covers.behindSymbol admitted
  | number | word =>
    rw [Place.behind, Place.behind]
    split
    · exact covers.append _ _ _
    · exact ⟨covers.deeper, .inl rfl, id⟩
  | quoted => exact ⟨covers.deeper, .inl rfl, id⟩
  | comment => cases admitted

/-! ## Templates -/

/-- The characters that stand behind parameters. Whatever is in front of them, they leave no word. -/
def separators : List Char :=
  [' ', ',', ')']

/-- The place behind a template for so many arguments: parameters have one digit and stand where nothing is
in front that could be gone on with, and separators behind them. -/
def traverse (count : Nat) : Place → List Char → Option Place
  | place, [] => some place
  | place, '<' :: 'p' :: d :: '>' :: c :: rest =>
    if isDigit d ∧ 1 ≤ digitValue d ∧ digitValue d ≤ count ∧ place.word = [] ∧ place.dash = false ∧
        c ∈ separators then
      (place.step (.ofCalls looksPortable) c).bind fun place => place.traverse count rest
    else none
  | place, c :: rest =>
    if c = '<' ∨ isQuote c then none
    else (place.step (.ofCalls looksPortable) c).bind fun place => place.traverse count rest

/-- What is in front of a separator does not count, but for the number of open parentheses. -/
private theorem step_separator {forbidden : Forbidden} {other : Place} (separates : c ∈ separators)
    (same : place.depth = other.depth) : place.step forbidden c = other.step forbidden c := by
  have outside : isNameChar c = false := by
    simp only [separators, List.mem_cons, List.not_mem_nil, or_false] at separates
    rcases separates with rfl | rfl | rfl <;> rfl
  have refuses : place.refuses forbidden c = other.refuses forbidden c := by
    simp only [separators, List.mem_cons, List.not_mem_nil, or_false] at separates
    rcases separates with rfl | rfl | rfl <;> simp [Place.refuses, delimiter, same]
  rw [step_of_not_isNameChar _ outside, step_of_not_isNameChar _ outside, refuses, behindSymbol,
    behindSymbol, same]

end Place

/-- A text that leads from any place with nothing in front to one that is as deep. -/
def Admissible (forbidden : Forbidden) (text : List Char) : Prop :=
  ∀ place : Place, IsLoose place.word → place.dash = false →
    ∃ after : Place, (Scan.code place).run forbidden text = some (.code after) ∧ after.depth = place.depth

namespace Place

variable {calls : List Char → Bool} {place actual after : Place} {depth : Nat}

/-- The expansion of a template is scanned at all places that are covered. -/
theorem run_expandText {count : Nat} {args : List (List Char)} {template : List Char}
    (portable : ∀ word, calls word = true → looksPortable word = true) (length : args.length = count)
    (admissible : ∀ arg ∈ args, Admissible (.ofCalls calls) arg) (covers : place.Covers depth actual)
    (traversed : place.traverse count template = some after) :
    ∃ after', (Scan.code actual).run (.ofCalls calls) (expandText args template) = some (.code after') ∧
      after.Covers depth after' := by
  have within : (Forbidden.ofCalls calls).Within (.ofCalls looksPortable) := by
    intro word called
    have looks := portable word called
    exact ⟨((Bool.and_eq_true _ _).mp looks).1, looks⟩
  fun_induction traverse count place template generalizing actual with
  | case1 place =>
    cases traversed
    rw [expandText_nil]
    exact ⟨actual, rfl, covers⟩
  | case2 place d c rest parameter ih =>
    obtain ⟨digit, low, high, empty, noDash, separates⟩ := parameter
    obtain ⟨next, steps, traversed⟩ := Option.bind_eq_some_iff.1 traversed
    have value : decimalValue [d] = digitValue d := by simp [decimalValue]
    have found : parameter? args.length (d :: '>' :: c :: rest) = some (digitValue d - 1, c :: rest) :=
      parameter?_eq_some_iff.2 ⟨[d], rfl, by simpa using digit, by omega, by omega, by rw [value]⟩
    have loose : IsLoose actual.word := by
      rcases covers.word with same | mixed
      · exact .inl (same.trans empty)
      · exact .inr mixed
    have clear : actual.dash = false := by
      by_contra dashed
      rw [covers.dash (eq_true_of_ne_false dashed)] at noDash
      cases noDash
    obtain ⟨middle, first, level⟩ := admissible _ (List.get_mem args _) actual loose clear
    -- the argument may leave any word and a dash, which the separator behind it drops
    have coversMiddle : Covers depth ⟨place.depth, middle.word, middle.dash, false⟩ middle :=
      ⟨level.trans covers.deeper, .inl rfl, id⟩
    have stepsMiddle : Place.step (.ofCalls looksPortable)
        ⟨place.depth, middle.word, middle.dash, false⟩ c = some next := by
      rw [← steps]
      exact step_separator separates rfl
    obtain ⟨next', steps', covers'⟩ := coversMiddle.step within (fun _ _ => rfl) stepsMiddle
    have noQuote : isQuote c = false ∧ c ≠ '<' := by
      simp only [separators, List.mem_cons, List.not_mem_nil, or_false] at separates
      rcases separates with rfl | rfl | rfl <;> decide
    obtain ⟨after', rest', last⟩ := ih next covers' traversed
    rw [expandText_of_some found, Scan.run_append, first, Option.bind_some,
      expandText_cons fun same => absurd same noQuote.2, Scan.run_cons, Scan.advance_code _ noQuote.1,
      steps']
    exact ⟨after', rest', last⟩
  | case3 => cases traversed
  | case4 => cases traversed
  | case5 place c rest _ fine ih =>
    obtain ⟨noParameter, noQuote⟩ := not_or.1 fine
    obtain ⟨next, steps, traversed⟩ := Option.bind_eq_some_iff.1 traversed
    obtain ⟨next', steps', covers'⟩ := covers.step within (fun _ _ => rfl) steps
    obtain ⟨after', rest', last⟩ := ih next covers' traversed
    rw [expandText_cons fun same => absurd same noParameter, Scan.run_cons,
      Scan.advance_code _ (by simpa using noQuote), steps']
    exact ⟨after', rest', last⟩

end Place

end PortableSql.Query

namespace PortableSql.PortableFunction

open Query

/-- Whether the template, parameters apart, is scanned behind any loose word and a dash and leaves nothing
that could be gone on with. -/
def isSmooth (f : PortableFunction) : Bool :=
  match Place.traverse f.arity ⟨0, [], true, false⟩ f.template.toList with
  | some after => after.depth == 0 && !after.dash && (after.word == [] || !allLetters after.word)
  | none => false

end PortableSql.PortableFunction

namespace PortableSql.Query

open Catalog Placeholder Text

/-! ## Queries -/

/-- Tokens without comments, in which no number that ends in a point and such a word stands before a
parenthesis. -/
structure Tame (calls : List Char → Bool) (tokens : List Token) : Prop where
  noComment : ∀ token ∈ tokens, token.isComment = false
  noNumber : ∀ front name, [.number (front ++ '.' :: name), .opening] <:+: tokens → calls name = false

/-- A text in which no dash follows another one has no comments. -/
theorem Reads.not_isComment {text rest : List Char} {tokens : List Token} (reads : Reads text tokens rest)
    (noDashes : ¬ ['-', '-'] <:+: text) : ∀ token ∈ tokens, token.isComment = false := by
  intro token member
  cases token with
  | comment letters =>
    obtain ⟨front, back, rfl⟩ := List.append_of_mem member
    obtain ⟨_, _, stands, _⟩ := Reads.cons_iff.1 reads.of_append.2
    cases stands with
    | @comment line _ _ _ =>
      refine absurd ⟨source front, line ++ source back ++ rest, ?_⟩ noDashes
      rw [← reads.lossless]
      simp [Token.text]
  | _ => rfl

/-- A catalog whose templates are smooth, and calls of some of its functions. -/
structure SmoothCalls (catalog : Catalog) (calls : List Char → Bool) : Prop where
  portable : ∀ word, calls word = true → looksPortable word = true
  known : ∀ word, calls word = true → catalog.containsName (String.ofList word) = true
  smooth : ∀ name arity f, catalog.resolve name arity = some f → f.arity = arity ∧ f.isSmooth = true

/-- A place at which a query may be gone on with: the word in front is not gone on with to a name, nor the
dash to a comment, and no call is opened. -/
structure Ready (calls : List Char → Bool) (place : Place) (text : List Char) (tokens : List Token) :
    Prop where
  word : IsLoose place.word ∨ ∀ c, text.head? = some c → isNameChar c = false
  dash : place.dash = true → text.head? ≠ some '-'
  call : tokens.head? = some .opening → calls place.word = false

section
variable {catalog : Catalog} {calls : List Char → Bool} {place : Place} {text rest : List Char}
  {tokens part : List Token} {parts : List Part}

theorem Tame.of_infix (tame : Tame calls tokens) (inside : part <:+: tokens) : Tame calls part where
  noComment token member := tame.noComment token (inside.subset member)
  noNumber front name pair := tame.noNumber front name (pair.trans inside)

theorem Tame.tail {token : Token} (tame : Tame calls (token :: tokens)) : Tame calls tokens :=
  tame.of_infix ⟨[token], [], by simp⟩

namespace SmoothCalls

variable (smooth : SmoothCalls catalog calls)
include smooth

theorem calls_of_loose {word : List Char} (loose : IsLoose word) : calls word = false := by
  by_contra called
  have looks := smooth.portable word (eq_true_of_ne_false called)
  rw [looksPortable, Bool.and_eq_true] at looks
  rcases loose with rfl | mixed
  · cases looks.2
  · rw [looks.1] at mixed
    cases mixed

theorem ready_of_loose (loose : IsLoose place.word) (clear : place.dash = false) :
    Ready calls place text tokens where
  word := .inl loose
  dash dashed := by rw [clear] at dashed; cases dashed
  call _ := smooth.calls_of_loose loose

/-- A number leaves a loose word, or the one behind its last point. -/
private theorem ready_number {letters behind : List Char}
    (stands : (Token.number letters).StandsBefore behind.head?)
    (tame : Tame calls (.number letters :: tokens)) :
    Ready calls (place.behind (.number letters)) behind tokens := by
  cases stands with
  | @number c letters _ digit inside ends =>
    have outside : ∀ d, behind.head? = some d → isNameChar d = false := by
      intro d same
      have outside := ends d same
      rw [isNumberChar, Bool.or_eq_false_iff] at outside
      exact outside.1
    rw [Place.behind]
    split
    · have mixed : allLetters (place.word ++ c :: letters) = false :=
        allLetters_append_eq_false.2 (.inr (by simp [allLetters, isLetter_of_isDigit digit]))
      exact smooth.ready_of_loose (.inr mixed) rfl
    · -- the scan cuts the number at its points, and what is behind the last one may be a name
      rename_i points
      have whole : ∀ d ∈ c :: letters, isNumberChar d = true := by
        refine List.forall_mem_cons.2 ⟨?_, inside⟩
        rw [isNumberChar, isNameChar, digit, Bool.or_true, Bool.true_or]
      obtain ⟨front, same⟩ := Scan.exists_point whole (by simpa using points)
      refine ⟨.inr outside, by simp, fun opens => ?_⟩
      obtain ⟨tokens, rfl⟩ := List.head?_eq_some_iff.1 opens
      rw [same] at tame
      exact tame.noNumber front _ ⟨[], tokens, rfl⟩

/-- A token that is copied may stand at a place that is ready for it, and the next place is ready. -/
theorem ready_behind {token : Token} {behind : List Char}
    (ready : Ready calls place (token.text ++ behind) (token :: tokens))
    (stands : token.StandsBefore behind.head?) (tame : Tame calls (token :: tokens))
    (notOpening : token ≠ .opening) (notClosing : token ≠ .closing)
    (noCall : ¬ OpensCall catalog token tokens) :
    place.admits (.ofCalls calls) token = true ∧ Ready calls (place.behind token) behind tokens := by
  cases stands with
  | quoted => exact ⟨rfl, smooth.ready_of_loose (.inl rfl) rfl⟩
  | comment => cases tame.noComment _ List.mem_cons_self
  | number digit inside ends =>
    exact ⟨rfl, smooth.ready_number (.number digit inside ends) tame⟩
  | @word c letters _ start inside ends =>
    have name : (c :: letters).all isNameChar = true := by
      rw [List.all_cons, isNameChar, start, Bool.true_or, Bool.true_and]
      exact List.all_eq_true.2 inside
    rw [Place.behind, if_pos name]
    refine ⟨rfl, .inr ends, by simp, fun opens => ?_⟩
    rcases ready.word with (empty | mixed) | outside
    · rw [empty, List.nil_append]
      by_contra called
      exact noCall ⟨_, rfl, opens, smooth.known _ (eq_true_of_ne_false called)⟩
    · exact smooth.calls_of_loose (.inr (allLetters_append_eq_false.2 (.inl mixed)))
    · have first := outside c rfl
      rw [isNameChar, start] at first
      cases first
  | @symbol c _ noQuote noDigit noLetter noComment =>
    have fine : place.refuses (.ofCalls calls) c = false := by
      have noParenthesis : c ≠ '(' ∧ c ≠ ')' :=
        ⟨fun same => notOpening (by rw [same]), fun same => notClosing (by rw [same])⟩
      have noDash : c = '-' → place.dash = false := by
        rintro rfl
        by_contra dashed
        exact ready.dash (eq_true_of_ne_false dashed) rfl
      simpa [Place.refuses, Forbidden.ofCalls, noParenthesis] using noDash
    refine ⟨by rw [Place.admits, fine]; rfl, .inl (.inl rfl), fun dashed => ?_, fun _ => ?_⟩
    · exact noComment (by simpa [Place.behind, Place.behindSymbol] using dashed)
    · exact smooth.calls_of_loose (.inl rfl)

end SmoothCalls

end

variable {catalog : Catalog} {calls : List Char → Bool}

/-- The expansion of a call ends where it began, with nothing in front that could be gone on with. -/
private theorem SmoothCalls.run_call (smooth : SmoothCalls catalog calls) {f : PortableFunction}
    {args : List (List Char)} {place : Place} (isSmooth : f.isSmooth = true) (length : args.length = f.arity)
    (admissible : ∀ arg ∈ args, Admissible (.ofCalls calls) arg) (loose : IsLoose place.word) :
    ∃ after : Place, (Scan.code place).run (.ofCalls calls) (f.expandText args) = some (.code after) ∧
      after.depth = place.depth ∧ IsLoose after.word ∧ after.dash = false := by
  unfold PortableFunction.isSmooth at isSmooth
  split at isSmooth
  · rename_i last traversed
    simp only [Bool.and_eq_true, beq_iff_eq, Bool.not_eq_true', Bool.or_eq_true] at isSmooth
    obtain ⟨⟨level, clear⟩, ends⟩ := isSmooth
    have covers : Place.Covers place.depth ⟨0, [], true, false⟩ place :=
      ⟨by simp, loose, fun _ => rfl⟩
    obtain ⟨after, runs, covers⟩ :=
      Place.run_expandText smooth.portable length admissible covers traversed
    refine ⟨after, runs, by rw [covers.deeper, level, Nat.zero_add], ?_, ?_⟩
    · rcases covers.word with same | mixed
      · rw [same]
        exact ends
      · exact .inr mixed
    · by_contra dashed
      rw [covers.dash (eq_true_of_ne_false dashed)] at clear
      cases clear
  · cases isSmooth

/-- The pieces of a list that stands in its place. -/
private theorem Tame.pieces {text rest : List Char} {letters : List Char} {pieces : List (List Token)}
    {tokens : List Token}
    (tame : Tame calls (.word letters :: .opening :: (List.intercalate [.comma] pieces ++ .closing :: tokens)))
    (reads : Reads text (.word letters :: .opening ::
      (List.intercalate [.comma] pieces ++ .closing :: tokens)) rest) :
    ∀ piece ∈ pieces, Delimited piece ∧ Tame calls piece := by
  have shape : List.intercalate [.comma] pieces ++ .closing :: tokens =
      (List.intercalate [.comma] pieces ++ [.closing]) ++ tokens := by simp
  obtain ⟨_, _, _, reads⟩ := Reads.cons_iff.1 reads
  obtain ⟨_, _, _, reads⟩ := Reads.cons_iff.1 reads
  rw [shape] at reads
  intro piece among
  refine ⟨delimited_of_reads reads.of_append.1 piece among, tame.tail.tail.of_infix ?_⟩
  exact (infix_intercalate [Token.comma] among).trans (List.prefix_append ..).isInfix

/-- The expansion of a call and of what is behind it. -/
private theorem SmoothCalls.run_call_cons (smooth : SmoothCalls catalog calls) {text rest : List Char}
    {letters : List Char} {list tokens : List Token} {arguments : List (List Part)} {parts : List Part}
    {place : Place}
    (resolves : (catalog.resolve (String.ofList letters) arguments.length).isSome = true)
    (reads : Reads text (.word letters :: .opening :: (list ++ .closing :: tokens)) rest)
    (ready : Ready calls place text (.word letters :: .opening :: (list ++ .closing :: tokens)))
    (admissible : ∀ arg ∈ evaluateEach catalog arguments, Admissible (.ofCalls calls) arg)
    (later : ∀ {text : List Char} {place : Place}, Reads text tokens rest → Ready calls place text tokens →
      ∃ after : Place,
        (Scan.code place).run (.ofCalls calls) (evaluateParts catalog parts) = some (.code after) ∧
          after.depth = place.depth) :
    ∃ after : Place, (Scan.code place).run (.ofCalls calls)
        (evaluateParts catalog (.call (String.ofList letters) arguments :: parts)) = some (.code after) ∧
      after.depth = place.depth := by
  obtain ⟨f, overload⟩ := Option.isSome_iff_exists.1 resolves
  obtain ⟨arity, isSmooth⟩ := smooth.smooth _ _ f overload
  obtain ⟨_, rfl, stands, reads⟩ := Reads.cons_iff.1 reads
  obtain ⟨_, _, _, reads⟩ := Reads.cons_iff.1 reads
  obtain ⟨_, _, _, reads⟩ := Reads.cons_iff.1 reads.of_append.2
  have loose : IsLoose place.word := by
    refine ready.word.resolve_right fun outside => ?_
    cases stands with
    | word start =>
      have first := outside _ rfl
      rw [isNameChar, start] at first
      cases first
  have length : (evaluateEach catalog arguments).length = f.arity := by
    rw [evaluateEach_length, arity]
  obtain ⟨middle, first, level, loose, clear⟩ := smooth.run_call isSmooth length admissible loose
  obtain ⟨after, last, level'⟩ := later reads (smooth.ready_of_loose loose clear)
  refine ⟨after, ?_, level'.trans level⟩
  rw [evaluateParts, evaluate_call overload, Scan.run_append, first, Option.bind_some, last]

mutual

/-- Where a query may be gone on with, its expansion is scanned to a place that is as deep. -/
theorem run_evaluateParts (smooth : SmoothCalls catalog calls) :
    ∀ {text rest : List Char} {tokens : List Token} {parts : List Part} {place : Place},
      Derives catalog tokens parts → PartsResolve catalog parts → Reads text tokens rest →
      Tame calls tokens → Ready calls place text tokens →
      ∃ after : Place,
        (Scan.code place).run (.ofCalls calls) (evaluateParts catalog parts) = some (.code after) ∧
          after.depth = place.depth
  | _, _, _, _, place, .nil, _, _, _, _ => ⟨place, rfl, rfl⟩
  | _, _, _, _, place, .copy notOpening notClosing noCall later, ⟨_, resolves⟩, reads, tame, ready => by
    obtain ⟨behind, rfl, stands, reads⟩ := Reads.cons_iff.1 reads
    obtain ⟨admitted, ready⟩ := smooth.ready_behind ready stands tame notOpening notClosing noCall
    obtain ⟨after, runs, level⟩ := run_evaluateParts smooth later resolves reads tame.tail ready
    refine ⟨after, ?_, ?_⟩
    · rw [evaluateParts, Part.evaluate, Scan.run_append, Scan.run_token stands, if_pos admitted,
        Option.bind_some, runs]
    · rw [level, Place.depth_behind, depthBehind_of_ne notOpening notClosing]
  | _, _, _, _, place, @Derives.group _ inner tokens inside parts within later,
      ⟨resolvesWithin, resolves⟩, reads, tame, ready => by
    obtain ⟨_, _, _, reads⟩ := Reads.cons_iff.1 reads
    obtain ⟨_, _, _, readsLater⟩ := Reads.cons_iff.1 reads.of_append.2
    have opens : place.admits (.ofCalls calls) .opening = true := by
      simp [Place.admits, Place.refuses, Forbidden.ofCalls, delimiter, ready.call rfl]
    have nothing : ∀ place : Place, IsLoose (place.behind .opening).word ∧
        IsLoose (place.behind .closing).word := fun _ => ⟨.inl rfl, .inl rfl⟩
    obtain ⟨middle, runsWithin, deeper⟩ := run_evaluateParts smooth within resolvesWithin
      reads.of_append.1 (tame.tail.of_infix (List.prefix_append ..).isInfix)
      (smooth.ready_of_loose (nothing place).1 rfl)
    have level : middle.depth = place.depth + 1 := deeper
    have closes : middle.admits (.ofCalls calls) .closing = true := by
      simp [Place.admits, Place.refuses, Forbidden.ofCalls, delimiter, level]
    obtain ⟨after, runsLater, same⟩ := run_evaluateParts smooth later resolves readsLater
      (tame.tail.of_infix (List.suffix_append ..).isInfix).tail
      (smooth.ready_of_loose (nothing middle).2 rfl)
    have shape : evaluateParts catalog (.group inside :: parts) = Token.opening.text ++
        (evaluateParts catalog inside ++ (Token.closing.text ++ evaluateParts catalog parts)) := by
      simp [evaluateParts, Part.evaluate, Token.text]
    refine ⟨after, ?_, ?_⟩
    · rw [shape, Scan.run_append, Scan.run_token (Token.opening_standsBefore none), if_pos opens,
        Option.bind_some, Scan.run_append, runsWithin, Option.bind_some, Scan.run_append,
        Scan.run_token (Token.closing_standsBefore none), if_pos closes, Option.bind_some, runsLater]
    · rw [same, Place.depth_behind, level]
      rfl
  | _, _, _, _, place, .emptyCall _ _ later, ⟨⟨resolvesName, _⟩, resolves⟩, reads, tame, ready =>
    smooth.run_call_cons resolvesName reads ready (fun _ member => absurd member List.not_mem_nil)
      fun reads ready => run_evaluateParts smooth later resolves reads
        (tame.tail.tail.of_infix (List.suffix_append ..).isInfix).tail ready
  | _, _, _, _, place, .call _ _ _ each later, ⟨⟨resolvesName, resolvesEach⟩, resolves⟩, reads, tame,
      ready =>
    smooth.run_call_cons resolvesName reads ready
      (admissible_evaluateEach smooth each resolvesEach (tame.pieces reads))
      fun reads ready => run_evaluateParts smooth later resolves reads
        (tame.tail.tail.of_infix (List.suffix_append ..).isInfix).tail ready

/-- The arguments of a call are admissible. -/
private theorem admissible_evaluateEach (smooth : SmoothCalls catalog calls) :
    ∀ {pieces : List (List Token)} {arguments : List (List Part)},
      DerivesEach catalog pieces arguments → EachResolves catalog arguments →
      (∀ piece ∈ pieces, Delimited piece ∧ Tame calls piece) →
      ∀ arg ∈ evaluateEach catalog arguments, Admissible (.ofCalls calls) arg
  | _, _, .nil, _, _ => fun _ member => absurd member List.not_mem_nil
  | piece :: _, _, .cons reads argument later, ⟨_, resolvesFirst, resolves⟩, stands => by
    obtain ⟨delimited, tame⟩ := stands piece List.mem_cons_self
    obtain rfl := reads.unique (reads_argumentText delimited)
    refine List.forall_mem_cons.2 ⟨fun place loose clear => ?_, ?_⟩
    · exact run_evaluateParts smooth argument resolvesFirst reads
        (tame.of_infix (argumentTokens_isInfix tame.noComment)) (smooth.ready_of_loose loose clear)
    · exact admissible_evaluateEach smooth later resolves fun piece member =>
        stands piece (List.mem_cons_of_mem _ member)

end

end PortableSql.Query
