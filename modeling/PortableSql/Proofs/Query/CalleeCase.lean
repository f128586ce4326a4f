import PortableSql.Proofs.Catalog.Registration
import PortableSql.Proofs.Query.ErrorPositions
import PortableSql.Proofs.Query.Recasing

/-!
# The letter case of called names does not count

Main statement: queries that differ at most in the letter case of portable names directly before a parenthesis are
translated to the same text, or are refused for the same reason at the same place, where the errors quote texts that
differ in called names only (`translate_of_sameButCallees`). Both expansions are followed token by token. The lists
of a call end at the same place and hold arguments that again differ in called names only
(`readArguments_agree`), so the induction is on the levels that are left and, on one level, on the text that is left.
-/
namespace PortableSql.Query

open Calendar Text

variable {catalog : Catalog}

/-! ## What may differ -/

/-- Fragments in the same place whose texts differ in called names only. -/
structure Fragment.SameButCallees (catalog : Catalog) (fragment other : Fragment) : Prop where
  offset : fragment.offset = other.offset
  text : Query.SameButCallees catalog fragment.text other.text

/-- Faults that differ at most in the letter case of the name of a call. -/
inductive Fault.SameButCase : Fault → Fault → Prop
  | same (fault : Fault) : SameButCase fault fault
  | unclosedCall {name other : String} (same : SameUpToCase name other) :
      SameButCase (.unclosedCall name) (.unclosedCall other)
  | emptyArgument {name other : String} (same : SameUpToCase name other) :
      SameButCase (.emptyArgument name) (.emptyArgument other)

/-- Quoted texts that begin, with equally many characters, two texts which differ in called names only. -/
def SameQuotes (catalog : Catalog) (quote other : String) : Prop :=
  ∃ text text' count, SameButCallees catalog text text' ∧ quote.toList = text.take count ∧
    other.toList = text'.take count

/-- Errors for the same reason at the same place, which differ at most in the letter case of called names. -/
inductive Error.SameButCallees (catalog : Catalog) : Error → Error → Prop
  | malformed {fault fault' : Fault} {position : Nat} {snippet snippet' : String}
      (faults : fault.SameButCase fault') (quotes : SameQuotes catalog snippet snippet') :
      SameButCallees catalog (.malformed fault position snippet) (.malformed fault' position snippet')
  | unknownOverload {name name' : String} {arity position : Nat} {snippet snippet' : String}
      (names : SameUpToCase name name') (quotes : SameQuotes catalog snippet snippet') :
      SameButCallees catalog (.unknownOverload name arity position snippet)
        (.unknownOverload name' arity position snippet')
  | depthExceeded {limit position : Nat} {snippet snippet' : String}
      (quotes : SameQuotes catalog snippet snippet') :
      SameButCallees catalog (.depthExceeded limit position snippet) (.depthExceeded limit position snippet')

/-- What is read of two argument lists. -/
structure ArgumentList.SameButCallees (catalog : Catalog) (list other : ArgumentList) : Prop where
  arguments : List.Forall₂ (Fragment.SameButCallees catalog) list.arguments other.arguments
  behind : Fragment.SameButCallees catalog list.behind other.behind

section
variable {fragment other : Fragment}

theorem Fragment.SameButCallees.snippet (same : fragment.SameButCallees catalog other) :
    SameQuotes catalog fragment.snippet other.snippet :=
  ⟨_, _, snippetLength, same.text, String.toList_ofList, String.toList_ofList⟩

theorem Fragment.SameButCallees.malformed {fault fault' : Fault} (same : fragment.SameButCallees catalog other)
    (faults : fault.SameButCase fault') :
    Error.SameButCallees catalog (fragment.malformed fault) (other.malformed fault') := by
  rw [Fragment.malformed, Fragment.malformed, ← same.offset]
  exact .malformed faults same.snippet

end

/-- Where both texts are cut before such texts, what is in front is quoted equally long. -/
theorem SameQuotes.of_append {text text' rest rest' quote quote' : List Char}
    (texts : SameButCallees catalog text text') (rests : SameButCallees catalog rest rest')
    (split : text = quote ++ rest) (split' : text' = quote' ++ rest') :
    SameQuotes catalog (String.ofList quote) (String.ofList quote') := by
  have whole := texts.sameLetters.length_eq
  have sameLength : quote.length = quote'.length := by
    rw [split, split', List.length_append, rests.sameLetters.length_eq] at whole
    exact Nat.add_right_cancel (whole.trans List.length_append)
  refine ⟨text, text', quote.length, texts, ?_, ?_⟩
  · rw [String.toList_ofList, split, List.take_left]
  · rw [String.toList_ofList, sameLength, split', List.take_left]

/-! ## The first token -/

namespace SameToken

variable {behind behind' : List Char} {token token' : Token}

theorem text (same : SameToken catalog behind token token') :
    List.Forall₂ SameLetter token.text token'.text := by
  cases same with
  | same => exact List.forall₂_same.2 fun _ _ => .inl rfl
  | callee _ _ same => exact same

theorem byteLength_eq (same : SameToken catalog behind token token') :
    byteLength token.text = byteLength token'.text :=
  byteLength_eq_of_sameLetters same.text

theorem eq_symbol_iff (same : SameToken catalog behind token token') (c : Char) :
    token = .symbol c ↔ token' = .symbol c := by
  cases same with
  | same => rfl
  | callee => exact iff_of_false nofun nofun

theorem depthBehind_eq (same : SameToken catalog behind token token') (depth : Nat) :
    depthBehind depth token = depthBehind depth token' := by
  cases same <;> rfl

end SameToken

namespace SameButCallees

variable {text other : List Char}

theorem head?_opening_iff (same : SameButCallees catalog text other) :
    (∃ inner, text = '(' :: inner) ↔ ∃ inner, other = '(' :: inner := by
  cases same.sameLetters with
  | nil => rfl
  | cons first =>
    rcases first.eq_or_letters with rfl | ⟨letter, letter'⟩
    · simp
    · have other {c : Char} (letter : isNameStart c = true) : c ≠ '(' := by
        rintro rfl
        cases letter
      simp [other letter, other letter']

/-- Behind a parenthesis that opens in both texts they go on in the same way. -/
theorem behind_opening {inner inner' : List Char} (same : SameButCallees catalog ('(' :: inner) ('(' :: inner')) :
    SameButCallees catalog inner inner' := by
  have found : nextToken? '(' inner = some (.opening, inner) := rfl
  obtain ⟨_, _, _, behind, shape, found', _, later⟩ := same.step found
  obtain ⟨rfl, rfl⟩ := List.cons.inj shape
  obtain ⟨_, rfl⟩ := Prod.mk.inj (Option.some.inj found')
  exact later

end SameButCallees

/-- A token opens no call in either text, or it does so in both. -/
theorem SameToken.calls {behind behind' : List Char} {token token' : Token}
    (same : SameToken catalog behind token token') (texts : SameButCallees catalog behind behind') :
    (callName? catalog token behind = none ∧ token' = token ∧ callName? catalog token behind' = none) ∨
      ∃ name name', callName? catalog token behind = some name ∧
        callName? catalog token' behind' = some name' ∧ SameUpToCase name name' := by
  cases same with
  | same =>
    have sameCall : callName? catalog token behind = callName? catalog token behind' := by
      have opens (word : Prop) :
          (∃ inner, behind = '(' :: inner ∧ word) ↔ ∃ inner, behind' = '(' :: inner ∧ word := by
        rw [exists_and_right, texts.head?_opening_iff, exists_and_right]
      refine Option.ext fun name => ?_
      simp only [callName?_eq_some_iff, exists_and_left, opens]
    cases called : callName? catalog token behind with
    | none => exact .inl ⟨rfl, rfl, sameCall ▸ called⟩
    | some name =>
      refine .inr ⟨name, name, rfl, sameCall ▸ called, ?_⟩
      exact foldCase_eq_iff.1 rfl
  | @callee letters letters' called known same =>
    have names : SameUpToCase (String.ofList letters) (String.ofList letters') := by
      rw [SameUpToCase, String.toList_ofList, String.toList_ofList]
      exact same
    have known' := catalog.containsName_of_sameUpToCase names ▸ known
    obtain ⟨inner, rfl⟩ := List.head?_eq_some_iff.1 called
    obtain ⟨inner', rfl⟩ := texts.head?_opening_iff.1 ⟨inner, rfl⟩
    exact .inr ⟨_, _, callName?_eq_some_iff.2 ⟨letters, inner, rfl, rfl, known, rfl⟩,
      callName?_eq_some_iff.2 ⟨letters', inner', rfl, rfl, known', rfl⟩, names⟩

/-! ## Argument lists -/

/-- Pieces in the same place whose texts differ in letter case only. -/
private structure Piece.Agrees (catalog : Catalog) (piece other : Piece) : Prop where
  start : piece.start.SameButCallees catalog other.start
  raw : List.Forall₂ SameLetter piece.raw other.raw

/-- Splittings that end in the same way at the same place. -/
private inductive Ending.Agrees (catalog : Catalog) : Ending → Ending → Prop
  | closed {behind behind' : Fragment} (same : behind.SameButCallees catalog behind') :
      Agrees catalog (.closed behind) (.closed behind')
  | unterminated {quote : Char} {literal literal' : Fragment}
      (same : literal.SameButCallees catalog literal') :
      Agrees catalog (.unterminated quote literal) (.unterminated quote literal')
  | unclosed : Agrees catalog .unclosed .unclosed

private structure Split.Agrees (catalog : Catalog) (split other : Split) : Prop where
  first : split.first.Agrees catalog other.first
  later : List.Forall₂ (Piece.Agrees catalog) split.later other.later
  ending : split.ending.Agrees catalog other.ending

private theorem Piece.agrees_emptyAt {start start' : Fragment} (same : start.SameButCallees catalog start') :
    (Piece.emptyAt start).Agrees catalog (.emptyAt start') :=
  ⟨same, .nil⟩

/-- Texts that differ in called names only are split in the same places. -/
private theorem splitPieces_agrees {depth offset : Nat} {text other : List Char}
    (same : SameButCallees catalog text other) :
    (splitPieces depth offset text).Agrees catalog (splitPieces depth offset other) := by
  fun_induction splitPieces depth offset text generalizing other with
  | case1 depth offset =>
    have start : Fragment.SameButCallees catalog ⟨offset, []⟩ ⟨offset, other⟩ := ⟨rfl, same⟩
    obtain rfl := same.eq_nil
    rw [splitPieces]
    exact ⟨Piece.agrees_emptyAt start, .nil, .unclosed⟩
  | case2 depth offset c cs missing =>
    have start : Fragment.SameButCallees catalog ⟨offset, c :: cs⟩ ⟨offset, other⟩ := ⟨rfl, same⟩
    obtain rfl := same.eq_of_unread missing
    rw [splitPieces_of_none missing]
    exact ⟨Piece.agrees_emptyAt start, .nil, .unterminated start⟩
  | case3 depth offset c cs token rest found next =>
    rename_i close
    have start : Fragment.SameButCallees catalog ⟨offset, c :: cs⟩ ⟨offset, other⟩ := ⟨rfl, same⟩
    obtain ⟨d, ds, token', rest', rfl, found', tokens, later⟩ := same.step found
    rw [splitPieces_cons found', if_pos ⟨close.1, (tokens.eq_symbol_iff _).1 close.2⟩, ← tokens.byteLength_eq]
    exact ⟨Piece.agrees_emptyAt start, .nil, .closed ⟨rfl, later⟩⟩
  | case4 depth offset c cs token rest found next notClosing split comma =>
    rename_i ih
    have start : Fragment.SameButCallees catalog ⟨offset, c :: cs⟩ ⟨offset, other⟩ := ⟨rfl, same⟩
    obtain ⟨d, ds, token', rest', rfl, found', tokens, later⟩ := same.step found
    rw [splitPieces_cons found', if_neg fun closes => notClosing ⟨closes.1, (tokens.eq_symbol_iff _).2 closes.2⟩,
      ← tokens.byteLength_eq, ← tokens.depthBehind_eq]
    dsimp only
    rw [if_pos ⟨comma.1, (tokens.eq_symbol_iff _).1 comma.2⟩]
    have agrees := ih later
    exact ⟨Piece.agrees_emptyAt start, .cons agrees.first agrees.later, agrees.ending⟩
  | case5 depth offset c cs token rest found next notClosing split notComma =>
    rename_i ih
    have start : Fragment.SameButCallees catalog ⟨offset, c :: cs⟩ ⟨offset, other⟩ := ⟨rfl, same⟩
    obtain ⟨d, ds, token', rest', rfl, found', tokens, later⟩ := same.step found
    rw [splitPieces_cons found', if_neg fun closes => notClosing ⟨closes.1, (tokens.eq_symbol_iff _).2 closes.2⟩,
      ← tokens.byteLength_eq, ← tokens.depthBehind_eq]
    dsimp only
    rw [if_neg fun comma => notComma ⟨comma.1, (tokens.eq_symbol_iff _).2 comma.2⟩]
    have agrees := ih later
    exact ⟨⟨start, List.rel_append tokens.text agrees.first.raw⟩, agrees.later, agrees.ending⟩

/-- Where a piece is blank in one text, it is in the other. -/
private theorem Piece.Agrees.argument? {name name' : String} {piece other : Piece}
    (agrees : piece.Agrees catalog other) (names : SameUpToCase name name') :
    ResultsAgree (Error.SameButCallees catalog) (fun _ _ => True) (piece.argument? name)
      (other.argument? name') := by
  unfold Piece.argument?
  rw [allBlank_eq_of_sameLetters agrees.raw]
  split
  · exact .error (agrees.start.malformed (.emptyArgument names))
  · exact .ok trivial

private theorem Split.Agrees.arguments {name name' : String} {split other : Split}
    (agrees : split.Agrees catalog other) (names : SameUpToCase name name') :
    ResultsAgree (Error.SameButCallees catalog) (List.Forall₂ fun _ _ => True) (split.arguments name)
      (other.arguments name') := by
  have sameNumber : split.later.isEmpty = other.later.isEmpty := by
    rw [Bool.eq_iff_iff, List.isEmpty_iff_length_eq_zero, List.isEmpty_iff_length_eq_zero,
      agrees.later.length_eq]
  unfold Split.arguments
  rw [sameNumber, allBlank_eq_of_sameLetters agrees.first.raw]
  split
  · exact .ok .nil
  · exact .mapM (.cons agrees.first agrees.later) fun _ _ pieces => pieces.argument? names

/-- The finished pieces of two splittings. -/
private theorem Split.Agrees.finished {name name' : String} {split other : Split}
    (agrees : split.Agrees catalog other) (names : SameUpToCase name name') :
    ResultsAgree (Error.SameButCallees catalog) (List.Forall₂ fun _ _ => True)
      (split.pieces.dropLast.mapM (Piece.argument? name))
      (other.pieces.dropLast.mapM (Piece.argument? name')) := by
  have each : List.Forall₂ (Piece.Agrees catalog) split.pieces other.pieces :=
    .cons agrees.first agrees.later
  rw [List.dropLast_eq_take, List.dropLast_eq_take, each.length_eq]
  exact .mapM (List.forall₂_take _ each) fun _ _ pieces => pieces.argument? names

section
variable {name name' : String} {opening opening' : Fragment} {offset : Nat} {text other : List Char}

/-- A list is refused in both texts for the same reason, or in none. -/
private theorem readArguments_errors_agree (offset : Nat) (names : SameUpToCase name name')
    (openings : opening.SameButCallees catalog opening') (same : SameButCallees catalog text other) :
    ResultsAgree (Error.SameButCallees catalog) (fun _ _ => True)
      (readArguments name opening offset text) (readArguments name' opening' offset other) := by
  have agrees : (splitPieces 0 offset text).Agrees catalog (splitPieces 0 offset other) :=
    splitPieces_agrees same
  unfold readArguments
  generalize splitPieces 0 offset text = split at agrees
  generalize splitPieces 0 offset other = split' at agrees
  obtain ⟨first, later, ending⟩ := split
  obtain ⟨first', later', ending'⟩ := split'
  have endings := agrees.ending
  dsimp only at endings ⊢
  cases endings with
  | closed => exact (agrees.arguments names).map fun _ _ _ => trivial
  | unterminated literals =>
    exact (agrees.finished names).bind fun _ _ _ _ _ => .error (literals.malformed (.same _))
  | unclosed =>
    exact (agrees.finished names).bind fun _ _ _ _ _ => .error (openings.malformed (.unclosedCall names))

/-- An argument differs in called names only where its piece does. -/
private theorem sameButCallees_argumentText {piece piece' : List Token} (recasing : Recasing catalog piece piece')
    (delimited : Delimited piece) (delimited' : Delimited piece') :
    SameButCallees catalog (argumentText piece) (argumentText piece') :=
  ⟨_, _, [], ⟨reads_argumentText delimited, .inl rfl⟩, recasing.argumentTokens, by
    rw [List.append_nil, (reads_argumentText delimited').source_eq]⟩

private theorem placedArguments_sameButCallees {pieces pieces' : List (List Token)} (offset : Nat)
    (each : List.Forall₂ (Recasing catalog) pieces pieces') (delimited : ∀ piece ∈ pieces, Delimited piece)
    (delimited' : ∀ piece ∈ pieces', Delimited piece) :
    List.Forall₂ (Fragment.SameButCallees catalog) (placedArguments offset pieces)
      (placedArguments offset pieces') := by
  induction each generalizing offset with
  | nil => exact .nil
  | cons first _ ih =>
    obtain ⟨delimitedFirst, delimitedLater⟩ := List.forall_mem_cons.1 delimited
    obtain ⟨delimitedFirst', delimitedLater'⟩ := List.forall_mem_cons.1 delimited'
    have blanks := byteLength_eq_of_sameLetters (takeWhile_isBlank_sameLetters first.source)
    have length := byteLength_eq_of_sameLetters first.source
    rw [placedArguments, placedArguments, blanks, length]
    exact .cons ⟨rfl, sameButCallees_argumentText first delimitedFirst delimitedFirst'⟩
      (ih _ delimitedLater delimitedLater')

private theorem HoldsArguments.recased {pieces pieces' : List (List Token)} {arguments : List Fragment}
    (holds : HoldsArguments offset pieces arguments) (each : List.Forall₂ (Recasing catalog) pieces pieces')
    (delimited : ∀ piece ∈ pieces, Delimited piece) (delimited' : ∀ piece ∈ pieces', Delimited piece) :
    ∃ arguments', HoldsArguments offset pieces' arguments' ∧
      List.Forall₂ (Fragment.SameButCallees catalog) arguments arguments' := by
  cases holds with
  | none blank => exact ⟨[], .none (mt (Recasing.intercalate each).isVisible_iff.2 blank), .nil⟩
  | each visible =>
    have visible' : ∀ piece ∈ pieces', IsVisible piece :=
      (forall_mem_iff_of_forall₂ each fun _ _ _ recasing => recasing.isVisible_iff).1 visible
    exact ⟨_, .each visible', placedArguments_sameButCallees offset each delimited delimited'⟩

/-- What is read of a list in one text is read in the other, but for called names. -/
private theorem exists_readArguments {list : ArgumentList} (same : SameButCallees catalog text other)
    (read : readArguments name opening offset text = .ok list) :
    ∃ list', readArguments name' opening' offset other = .ok list' ∧ list.SameButCallees catalog list' := by
  obtain ⟨pieces, isList, reads⟩ := exists_pieces_of_closed (readArguments_closed read).1
  obtain ⟨tokens, others, rest, scanned, recasing, rfl⟩ := same
  have behindScanned := scanned_lex list.behind.text
  have whole : Scanned text (List.intercalate [.comma] pieces ++ .closing :: (lex list.behind.text).1)
      (lex list.behind.text).2 := by
    rw [List.append_cons]
    exact ⟨reads.append behindScanned.reads, behindScanned.ends⟩
  obtain ⟨rfl, rfl⟩ := whole.unique scanned
  have readsOther := recasing.reads scanned.reads
  obtain ⟨pieces', back', rfl, each, back⟩ := recasing.split_list isList.nonempty
  have isList' : IsList pieces' := by
    refine ⟨?_, (forall_mem_iff_of_forall₂ each fun _ _ _ recasing => recasing.isPiece_iff).1 isList.isPiece⟩
    rintro rfl
    exact isList.nonempty (List.forall₂_nil_right_iff.1 each)
  rw [List.append_cons] at readsOther ⊢
  obtain ⟨reads', readsBehind⟩ := readsOther.of_append
  obtain ⟨holds, behind⟩ := readArguments_places isList reads read
  obtain ⟨arguments', holds', arguments⟩ :=
    holds.recased each (delimited_of_reads reads) (delimited_of_reads reads')
  obtain ⟨list', read', rfl, behindText⟩ := holds'.readArguments isList' reads' name' opening'
  have behind' := (readArguments_places isList' reads' read').2
  have listRecasing := (Recasing.intercalate each).append (.keep .nil : Recasing catalog [.closing] [.closing])
  refine ⟨list', read', arguments, ?_, ?_⟩
  · rw [behind, behind', byteLength_eq_of_sameLetters listRecasing.source]
  · rw [behindText]
    exact ⟨_, _, _, behindScanned, back, rfl⟩

end

/-- Lists that differ in called names only are read to the same end, or refused at the same place. -/
theorem readArguments_agree {name name' : String} {opening opening' : Fragment} {offset : Nat}
    {text other : List Char} (names : SameUpToCase name name')
    (openings : opening.SameButCallees catalog opening') (same : SameButCallees catalog text other) :
    ResultsAgree (Error.SameButCallees catalog) (ArgumentList.SameButCallees catalog)
      (readArguments name opening offset text) (readArguments name' opening' offset other) := by
  have errors := readArguments_errors_agree offset names openings same
  cases read : readArguments name opening offset text with
  | ok list =>
    obtain ⟨list', read', lists⟩ := exists_readArguments same read
    rw [read']
    exact .ok lists
  | error e =>
    rw [read] at errors
    generalize readArguments name' opening' offset other = result at errors
    cases errors with
    | error related => exact .error related

/-! ## Expansion -/

/-- The text from a call on: its name, its list in parentheses, and what is behind. -/
private theorem text_of_readArguments {letters inner text : List Char} {name : String} {opening : Fragment}
    {offset : Nat} {list : ArgumentList} (whole : letters ++ '(' :: inner = text)
    (read : readArguments name opening offset inner = .ok list) :
    text = letters ++ '(' :: list.source ++ [')'] ++ list.behind.text := by
  obtain ⟨tokens, _, written, reads⟩ := readArguments_source read
  rw [← whole, written, ← reads.lossless, source_append]
  simp [Token.text]

/-- Two calls have the same overload, or both have none. -/
private theorem resolveCall_agree {name name' : String} {call call' : Fragment} {list list' : ArgumentList}
    (names : SameUpToCase name name') (calls : call.SameButCallees catalog call')
    (lists : list.SameButCallees catalog list')
    (text : call.text = name.toList ++ '(' :: list.source ++ [')'] ++ list.behind.text)
    (text' : call'.text = name'.toList ++ '(' :: list'.source ++ [')'] ++ list'.behind.text)
    (values : List (List Char)) :
    ResultsAgree (Error.SameButCallees catalog) Eq (resolveCall catalog name call list values)
      (resolveCall catalog name' call' list' values) := by
  unfold resolveCall
  rw [catalog.resolve_of_sameUpToCase names, calls.offset]
  cases catalog.resolve name' values.length with
  | some f => exact .ok rfl
  | none => exact .error (.unknownOverload names (.of_append calls.text lists.behind.text text text'))

/-- A parenthesis that closes an open one in a text does so in the other. -/
private theorem openedBehind?_agree {opened opened' : List Fragment} {here here' : Fragment}
    (each : List.Forall₂ (Fragment.SameButCallees catalog) opened opened')
    (same : here.SameButCallees catalog here') (token : Token) :
    Option.Rel (List.Forall₂ (Fragment.SameButCallees catalog)) (openedBehind? opened here token)
      (openedBehind? opened' here' token) := by
  unfold openedBehind?
  split
  · exact .some (.cons same each)
  · cases each with
    | nil => exact .none
    | cons _ later => exact .some later
  · exact .some each

private theorem expandCalls_unterminated {expandArgument : Fragment → Except Error (List Char)}
    {opened : List Fragment} {offset : Nat} {c : Char} {cs : List Char} (missing : nextToken? c cs = none) :
    expandCalls catalog expandArgument opened offset (c :: cs) =
      .error (Fragment.malformed ⟨offset, c :: cs⟩ (.unterminatedLiteral c)) := by
  rw [expandCalls]
  split
  · rfl
  · rename_i found
    cases missing.symm.trans found

/-- Two calls by the same name are replaced by the same text, where what is behind them agrees. -/
private theorem expandCall_agree {expandArgument : Fragment → Except Error (List Char)}
    {rest rest' : ArgumentList → Except Error (List Char)} {letters letters' inner inner' text other : List Char}
    {offset opening : Nat}
    (arguments : ∀ fragment other, fragment.SameButCallees catalog other →
      ResultsAgree (Error.SameButCallees catalog) Eq (expandArgument fragment) (expandArgument other))
    (names : SameUpToCase (String.ofList letters) (String.ofList letters'))
    (whole : letters ++ '(' :: inner = text) (whole' : letters' ++ '(' :: inner' = other)
    (calls : Fragment.SameButCallees catalog ⟨offset, text⟩ ⟨offset, other⟩)
    (lists : SameButCallees catalog ('(' :: inner) ('(' :: inner'))
    (behind : ∀ list list',
      readArguments (String.ofList letters) ⟨opening, '(' :: inner⟩ (opening + 1) inner = .ok list →
      list.SameButCallees catalog list' → ResultsAgree (Error.SameButCallees catalog) Eq (rest list) (rest' list')) :
    ResultsAgree (Error.SameButCallees catalog) Eq
      ((readArguments (String.ofList letters) ⟨opening, '(' :: inner⟩ (opening + 1) inner).bind fun list =>
        (list.arguments.mapM expandArgument).bind fun values =>
          (resolveCall catalog (String.ofList letters) ⟨offset, text⟩ list values).bind fun sql =>
            (rest list).map (sql ++ ·))
      ((readArguments (String.ofList letters') ⟨opening, '(' :: inner'⟩ (opening + 1) inner').bind fun list =>
        (list.arguments.mapM expandArgument).bind fun values =>
          (resolveCall catalog (String.ofList letters') ⟨offset, other⟩ list values).bind fun sql =>
            (rest' list).map (sql ++ ·)) := by
  have openings : Fragment.SameButCallees catalog ⟨opening, '(' :: inner⟩ ⟨opening, '(' :: inner'⟩ := ⟨rfl, lists⟩
  refine (readArguments_agree names openings lists.behind_opening).bind fun list list' read read' same => ?_
  refine (ResultsAgree.mapM same.arguments arguments).bind fun values values' _ _ equal => ?_
  rw [List.forall₂_eq_eq_eq] at equal
  subst equal
  have text := text_of_readArguments whole read
  have text' := text_of_readArguments whole' read'
  rw [← String.toList_ofList (l := letters)] at text
  rw [← String.toList_ofList (l := letters')] at text'
  refine (resolveCall_agree names calls same text text' values).bind fun sql sql' _ _ equal => ?_
  subst equal
  exact (behind _ _ read same).map fun _ _ equal => equal ▸ rfl

/-- One level of two expansions, where those of the arguments agree. -/
private theorem expandCalls_agree {expandArgument : Fragment → Except Error (List Char)}
    (arguments : ∀ fragment other, fragment.SameButCallees catalog other →
      ResultsAgree (Error.SameButCallees catalog) Eq (expandArgument fragment) (expandArgument other))
    {opened opened' : List Fragment} {offset : Nat} {text other : List Char}
    (each : List.Forall₂ (Fragment.SameButCallees catalog) opened opened')
    (same : SameButCallees catalog text other) :
    ResultsAgree (Error.SameButCallees catalog) Eq (expandCalls catalog expandArgument opened offset text)
      (expandCalls catalog expandArgument opened' offset other) := by
  induction remaining : text.length using Nat.strong_induction_on
    generalizing opened opened' offset text other with
  | _ count ih =>
    have here : Fragment.SameButCallees catalog ⟨offset, text⟩ ⟨offset, other⟩ := ⟨rfl, same⟩
    cases text with
    | nil =>
      obtain rfl := same.eq_nil
      cases each with
      | nil =>
        rw [expandCalls_nil]
        exact .ok rfl
      | cons first _ =>
        rw [expandCalls, expandCalls]
        exact .error (first.malformed (.same _))
    | cons c cs =>
      cases found : nextToken? c cs with
      | none =>
        obtain rfl := same.eq_of_unread found
        rw [expandCalls_unterminated found, expandCalls_unterminated found]
        exact .error (here.malformed (.same _))
      | some first =>
        obtain ⟨token, behind⟩ := first
        obtain ⟨d, ds, token', behind', rfl, found', tokens, texts⟩ := same.step found
        have shorter := nextToken?_length found
        rw [List.length_cons] at remaining
        rw [expandCalls_cons found, expandCalls_cons found', ← tokens.byteLength_eq]
        rcases tokens.calls texts with ⟨none, rfl, none'⟩ | ⟨name, name', call, call', names⟩
        · rw [none, none']
          dsimp only
          have still := openedBehind?_agree each here token'
          generalize openedBehind? opened _ token' = opened at still ⊢
          generalize openedBehind? opened' _ token' = opened' at still ⊢
          cases still with
          | none => exact .error (here.malformed (.same _))
          | some still => exact (ih _ (by omega) still texts rfl).map fun _ _ same => same ▸ rfl
        · rw [call, call']
          dsimp only
          obtain ⟨letters, inner, rfl, rfl, _, rfl⟩ := callName?_eq_some_iff.1 call
          obtain ⟨letters', inner', rfl, rfl, _, rfl⟩ := callName?_eq_some_iff.1 call'
          refine expandCall_agree arguments names (nextToken?_append found) (nextToken?_append found') here texts
            fun list list' read lists => ?_
          have within := readArguments_length read
          rw [List.length_cons] at shorter
          rw [← lists.behind.offset]
          exact ih _ (by omega) each lists.behind.text rfl

private theorem expandFragment_agree {limit levels : Nat} {fragment other : Fragment}
    (same : fragment.SameButCallees catalog other) :
    ResultsAgree (Error.SameButCallees catalog) Eq (expandFragment catalog limit levels fragment)
      (expandFragment catalog limit levels other) := by
  induction levels generalizing fragment other with
  | zero =>
    rw [expandFragment, expandFragment, same.offset]
    exact .error (.depthExceeded same.snippet)
  | succ levels ih =>
    rw [expandFragment, expandFragment, same.offset]
    exact expandCalls_agree (fun _ _ => ih) .nil same.text

/-- Queries that differ at most in the letter case of portable names directly before a parenthesis have the same
translation, or are refused with errors that differ in no more than that. -/
theorem translate_of_sameButCallees (placeholders : Placeholder.Registry) (maxDepth : Nat) (now : DateTime)
    {query other : String} (same : SameButCallees catalog query.toList other.toList) :
    ResultsAgree (Error.SameButCallees catalog) Eq (translate catalog placeholders maxDepth now query).1
        (translate catalog placeholders maxDepth now other).1 ∧
      (translate catalog placeholders maxDepth now query).2 =
        (translate catalog placeholders maxDepth now other).2 := by
  have expanded : ResultsAgree (Error.SameButCallees catalog) Eq (expandQuery catalog maxDepth query.toList)
      (expandQuery catalog maxDepth other.toList) := expandFragment_agree ⟨rfl, same⟩
  generalize first : expandQuery catalog maxDepth query.toList = result at expanded
  generalize second : expandQuery catalog maxDepth other.toList = result' at expanded
  cases expanded with
  | error related =>
    rw [translate_of_error first, translate_of_error second]
    exact ⟨.error related, rfl⟩
  | ok same =>
    subst same
    rw [translate_of_ok first, translate_of_ok second]
    exact ⟨.ok rfl, rfl⟩

/-- Neither the name that is not called nor the one in the span may change its letters. -/
theorem translate_of_sameButCallees_of_nested :
    SameButCallees (Catalog.empty.insert ⟨"f", 1, "[<p1>]", none⟩) "F(f(x)||'f(')+f (1)".toList
        "f(F(x)||'f(')+f (1)".toList ∧
      ResultsAgree (Error.SameButCallees (Catalog.empty.insert ⟨"f", 1, "[<p1>]", none⟩)) Eq
        (translate (Catalog.empty.insert ⟨"f", 1, "[<p1>]", none⟩) .empty 8
          ⟨⟨2000, 1, 1, by decide⟩, ⟨0, 0, 0, 0, by decide⟩⟩ "F(f(x)||'f(')+f (1)").1
        (translate (Catalog.empty.insert ⟨"f", 1, "[<p1>]", none⟩) .empty 8
          ⟨⟨2000, 1, 1, by decide⟩, ⟨0, 0, 0, 0, by decide⟩⟩ "f(F(x)||'f(')+f (1)").1 := by
  have same : SameButCallees (Catalog.empty.insert ⟨"f", 1, "[<p1>]", none⟩) "F(f(x)||'f(')+f (1)".toList
      "f(F(x)||'f(')+f (1)".toList := by
    have letter : SameLetter 'F' 'f' := .inr (.inl ⟨by decide, by decide, rfl⟩)
    have letter' : SameLetter 'f' 'F' := .inr (.inr ⟨by decide, by decide, rfl⟩)
    have scanned := scanned_lex "F(f(x)||'f(')+f (1)".toList
    have found : lex "F(f(x)||'f(')+f (1)".toList = ([.word ['F'], .opening, .word ['f'], .opening, .word ['x'],
        .closing, .symbol '|', .symbol '|', .quoted ['\'', 'f', '(', '\''], .closing, .symbol '+', .word ['f'],
        .symbol ' ', .opening, .number ['1'], .closing], []) := by
      decide +kernel
    rw [found] at scanned
    exact ⟨_, _, [], scanned, .callee (by decide) (.cons letter .nil)
      (.keep (.callee (by decide) (.cons letter' .nil) (.refl _))), rfl⟩
  exact ⟨same, (translate_of_sameButCallees .empty 8 _ same).1⟩

end PortableSql.Query
