import PortableSql.Proofs.Query.ArgumentPlaces
import PortableSql.Proofs.Query.ArgumentTokens
import PortableSql.Proofs.Query.Characters
import PortableSql.Proofs.Query.ErrorPositions
import PortableSql.Proofs.Query.Parentheses

/-!
# The arguments of a closed list

Splitting a list and expanding its arguments agree on what quotes, comments and parentheses mean. Main
statement: a list that is read ends at the parenthesis that closes it, its pieces make up what stands in
between, and each argument is a text in which all literals are closed and all parentheses balance
(`arguments_of_closed_list`). Expanding such a text keeps an invariant: what is left to be expanded closes the
parentheses that are open (`EndsPiece.openedBehind?`), so that only calls can be at fault.
-/
namespace PortableSql.Query

open Fragment Text

/-- The errors that calls alone are to blame for: a blank argument, an overload that is not known, too many
calls around an argument. -/
inductive Error.OfCall : Error → Prop
  | emptyArgument {name : String} {position : Nat} {snippet : String} :
      OfCall (.malformed (.emptyArgument name) position snippet)
  | unknownOverload {name : String} {arity position : Nat} {snippet : String} :
      OfCall (.unknownOverload name arity position snippet)
  | depthExceeded {limit position : Nat} {snippet : String} :
      OfCall (.depthExceeded limit position snippet)

/-- A text in which every literal is closed and every parenthesis has its partner, the calls in it included:
whatever functions there are and however deep it lies, only calls are at fault where it is not expanded. -/
structure Fragment.IsSound (fragment : Fragment) : Prop where
  reads : ∃ tokens, Reads fragment.text tokens [] ∧ IsPiece tokens
  /-- No list that is opened in the text, needed for its expansion or not, fails for another reason. -/
  lists : ∀ place behind, IsRestOf ⟨place, '(' :: behind⟩ fragment →
    ∀ name opening offset e, readArguments name opening offset behind = .error e → e.OfCall
  expands : ∀ catalog limit levels e,
    expandFragment catalog limit levels fragment = .error e → e.OfCall

/-- An argument in its piece, which begins at `offset`: the piece without the blanks at its ends. A newline
directly behind a comment may be kept. -/
structure IsArgument (offset : Nat) (raw : List Char) (argument : Fragment) : Prop where
  place : argument.offset = offset + byteLength (raw.takeWhile isBlank)
  isPrefix : argument.text <+: trimStart raw
  text : argument.text = trim raw ∨
    argument.text = trim raw ++ ['\n'] ∧
      ∃ shown letters, Shows argument.text shown ('-' :: '-' :: (letters ++ ['\n'])) ∧ '\n' ∉ letters

/-- The arguments of pieces that follow each other with commas between them, the first one at `offset`. -/
inductive AreArguments : Nat → List (List Char) → List Fragment → Prop
  | nil (offset : Nat) : AreArguments offset [] []
  | cons {offset : Nat} {raw : List Char} {raws : List (List Char)} {argument : Fragment}
      {arguments : List Fragment} (first : IsArgument offset raw argument)
      (later : AreArguments (offset + byteLength raw + 1) raws arguments) :
      AreArguments offset (raw :: raws) (argument :: arguments)

variable {catalog : Catalog} {limit levels : Nat} {name : String} {opening : Fragment} {offset : Nat}
  {text rest : List Char} {list : ArgumentList} {tokens : List Token} {e : Error}

/-! ## Lists of balanced tokens -/

/-- Where the parentheses of a list balance, only a blank argument keeps it from being read. -/
theorem ofCall_of_readArguments {inner : List Token} (balanced : Balanced inner)
    (reads : Reads text (inner ++ [.closing]) rest)
    (fails : readArguments name opening offset text = .error e) : e.OfCall := by
  obtain ⟨pieces, isList, rfl⟩ := balanced.exists_pieces
  unfold readArguments at fails
  dsimp only at fails
  rw [(splitPieces_of_reads offset isList reads).1] at fails
  have blank := map_eq_error_iff.1 fails
  unfold Split.arguments at blank
  split at blank
  · cases blank
  · obtain ⟨_, piece, _, _, _, _, blank⟩ := mapM_eq_error_iff.1 blank
    rw [Piece.argument?_eq_error blank]
    exact .emptyArgument

/-- The arguments that are read are pieces for themselves. -/
theorem readArguments_isPiece (read : readArguments name opening offset text = .ok list) :
    ∀ argument ∈ list.arguments, ∃ tokens, Reads argument.text tokens [] ∧ IsPiece tokens := by
  obtain ⟨pieces, isList, reads⟩ := exists_pieces_of_closed (readArguments_closed read).1
  have texts := holdsTexts_of_readArguments isList reads read
  intro argument member
  have among := List.mem_map_of_mem (f := Fragment.text) member
  generalize list.arguments.map Fragment.text = held at texts among
  cases texts with
  | none => cases among
  | each =>
    obtain ⟨piece, inList, same⟩ := List.mem_map.1 among
    rw [← same]
    exact ⟨_, reads_argumentText (delimited_of_reads reads piece inList),
      (isList.isPiece piece inList).argumentTokens⟩

/-! ## Expansion -/

/-- A token of a piece closes no parenthesis but an open one. -/
theorem EndsPiece.openedBehind? {opened : List Fragment} {token : Token}
    (ends : EndsPiece opened.length (token :: tokens)) (here : Fragment) :
    ∃ after, openedBehind? opened here token = some after ∧ EndsPiece after.length tokens := by
  obtain ⟨free, later⟩ := endsPiece_cons_iff.1 ends
  by_cases opens : token = .opening
  · subst opens
    exact ⟨here :: opened, rfl, later⟩
  · by_cases closes : token = .closing
    · subst closes
      cases opened with
      | nil => exact absurd rfl (free rfl).1
      | cons last opened => exact ⟨opened, rfl, later⟩
    · rw [depthBehind_of_ne opens closes] at later
      exact ⟨opened, openedBehind?_of_ne opens closes, later⟩

/-- The scanner takes the first token of a text that is read to its end. -/
private theorem Reads.exists_later {c : Char} {cs behind : List Char} {token : Token}
    (reads : Reads (c :: cs) tokens []) (found : Query.nextToken? c cs = some (token, behind)) :
    ∃ later, tokens = token :: later ∧ Reads behind later [] := by
  cases tokens with
  | nil => cases reads.lossless
  | cons first later =>
    obtain ⟨behind', found', readsLater⟩ := reads.nextToken?
    obtain ⟨rfl, rfl⟩ := Prod.mk.inj (Option.some.inj (found.symm.trans found'))
    exact ⟨later, rfl, readsLater⟩

/-- In a piece the list of a call is closed, and what follows it ends the piece. -/
private theorem EndsPiece.exists_list {depth : Nat} {letters inner : List Char}
    (ends : EndsPiece depth (.word letters :: tokens)) (reads : Reads ('(' :: inner) tokens []) :
    ∃ list later behind, Balanced list ∧ Reads inner (list ++ [.closing]) behind ∧
      Reads behind later [] ∧ EndsPiece depth later := by
  have found : nextToken? '(' inner = some (.opening, inner) := by rfl
  obtain ⟨behind, rfl, readsInner⟩ := reads.exists_later found
  obtain ⟨list, later, rfl, balanced, endsLater⟩ : EndsPiece (depth + 1) behind :=
    (endsPiece_cons_iff.1 (endsPiece_cons_iff.1 ends).2).2
  rw [List.append_cons] at readsInner
  obtain ⟨readsList, readsLater⟩ := readsInner.of_append
  exact ⟨list, later, _, balanced, readsList, readsLater, endsLater⟩

/-- Where the stretch that is left of a piece is not expanded, only calls are at fault. -/
private theorem ofCall_of_expandCalls {expandArgument : Fragment → Except Error (List Char)}
    (arguments : ∀ argument tokens e, Reads argument.text tokens [] → IsPiece tokens →
      expandArgument argument = .error e → e.OfCall)
    {opened : List Fragment} (reads : Reads text tokens []) (ends : EndsPiece opened.length tokens)
    (fails : expandCalls catalog expandArgument opened offset text = .error e) : e.OfCall := by
  -- the tokens that are left close the parentheses that are open, and balance otherwise
  fun_induction expandCalls catalog expandArgument opened offset text generalizing tokens with
  | case1 => cases fails
  | case2 =>
    cases reads.eq_nil
    cases endsPiece_nil.1 ends
  | case3 opened offset c cs here =>
    rename_i missing
    cases tokens with
    | nil => cases reads.lossless
    | cons =>
      obtain ⟨_, found, _⟩ := reads.nextToken?
      cases missing.symm.trans found
  | case4 opened offset c cs token behind found next name call e' =>
    rename_i fault
    cases fails
    obtain ⟨letters, inner, rfl, rfl, _⟩ := callName?_eq_some_iff.1 call
    obtain ⟨later, rfl, readsLater⟩ := reads.exists_later found
    obtain ⟨_, _, _, balanced, readsList, _⟩ := ends.exists_list readsLater
    exact ofCall_of_readArguments balanced readsList fault
  | case5 opened offset c cs here token behind found next name call list =>
    rename_i read ih
    obtain ⟨letters, inner, rfl, rfl, _⟩ := callName?_eq_some_iff.1 call
    obtain ⟨later, rfl, readsLater⟩ := reads.exists_later found
    obtain ⟨_, after, rest, balanced, readsList, readsAfter, endsAfter⟩ := ends.exists_list readsLater
    obtain ⟨pieces, isList, rfl⟩ := balanced.exists_pieces
    rcases bind_eq_error_iff.1 fails with fails | ⟨values, _, fails⟩
    · obtain ⟨_, argument, _, _, shape, _, fails⟩ := mapM_eq_error_iff.1 fails
      obtain ⟨tokens, readsArgument, isPiece⟩ := readArguments_isPiece read argument (by rw [shape]; simp)
      exact arguments argument tokens e readsArgument isPiece fails
    · rcases bind_eq_error_iff.1 fails with fails | ⟨sql, _, fails⟩
      · unfold resolveCall at fails
        split at fails
        · cases fails
        · cases fails
          exact .unknownOverload
      · rcases bind_eq_error_iff.1 fails with fails | ⟨_, _, fails⟩
        · have behindList : list.behind.text = rest :=
            congrArg Fragment.text (readArguments_places isList readsList read).2
          rw [← behindList] at readsAfter
          exact ih readsAfter endsAfter fails
        · cases fails
  | case6 opened offset c cs here token behind found noCall =>
    rename_i unopened
    obtain ⟨later, rfl, _⟩ := reads.exists_later found
    obtain ⟨after, still, _⟩ := ends.openedBehind? here
    cases unopened.symm.trans still
  | case7 opened offset c cs here token behind found next noCall after =>
    rename_i still ih
    obtain ⟨later, rfl, readsLater⟩ := reads.exists_later found
    obtain ⟨after', still', endsLater⟩ := ends.openedBehind? here
    obtain rfl := Option.some.inj (still.symm.trans still')
    rcases bind_eq_error_iff.1 fails with fails | ⟨_, _, fails⟩
    · exact ih readsLater endsLater fails
    · cases fails

/-- Where a piece is not expanded, only calls are at fault. -/
theorem ofCall_of_expandFragment {fragment : Fragment} (reads : Reads fragment.text tokens [])
    (isPiece : IsPiece tokens) (fails : expandFragment catalog limit levels fragment = .error e) :
    e.OfCall := by
  induction levels generalizing fragment tokens e with
  | zero =>
    cases fails
    exact .depthExceeded
  | succ levels ih =>
    have ends : EndsPiece ([] : List Fragment).length tokens := isPiece
    exact ofCall_of_expandCalls (fun _ _ _ => ih) reads ends fails

/-- Every list that is opened in a piece is closed in it. -/
theorem ofCall_of_isRestOf {fragment : Fragment} {place : Nat} {behind : List Char}
    (reads : Reads fragment.text tokens []) (isPiece : IsPiece tokens)
    (within : IsRestOf ⟨place, '(' :: behind⟩ fragment)
    (fails : readArguments name opening offset behind = .error e) : e.OfCall := by
  obtain ⟨front, readsFront, _⟩ := within
  obtain ⟨later, rfl⟩ := readsFront.exists_append reads
  have same : '(' :: behind = source later := by
    have whole : source front ++ '(' :: behind = source front ++ source later := by
      rw [← source_append, reads.source_eq]
      exact readsFront.lossless
    exact List.append_cancel_left whole
  have readsLater := reads.of_append.2
  rw [List.append_nil, ← same] at readsLater
  have found : nextToken? '(' behind = some (.opening, behind) := by rfl
  obtain ⟨inner, rfl, readsInner⟩ := readsLater.exists_later found
  obtain ⟨list, outer, rfl, balanced⟩ := isPiece.balanced.opensClosed front inner rfl
  rw [List.append_cons] at readsInner
  exact ofCall_of_readArguments balanced readsInner.of_append.1 fails

theorem isSound_of_isPiece {fragment : Fragment} (reads : Reads fragment.text tokens [])
    (isPiece : IsPiece tokens) : fragment.IsSound where
  reads := ⟨tokens, reads, isPiece⟩
  lists _ _ within _ _ _ _ fails := ofCall_of_isRestOf reads isPiece within fails
  expands _ _ _ _ fails := ofCall_of_expandFragment reads isPiece fails

/-! ## Pieces -/

/-- An argument is cut out of its piece. -/
theorem isArgument_of_delimited {piece : List Token} (delimited : Delimited piece) (visible : IsVisible piece)
    (offset : Nat) :
    IsArgument offset (source piece)
      ⟨offset + byteLength ((source piece).takeWhile isBlank), argumentText piece⟩ := by
  refine ⟨rfl, ?_, ?_⟩
  · obtain ⟨back, whole⟩ := delimited.source_eq visible
    refine ⟨back, ?_⟩
    have split := (List.takeWhile_append_dropWhile (p := isBlank) (l := source piece)).symm
    exact List.append_cancel_left (whole.symm.trans split)
  · have reads := reads_argumentText delimited
    unfold argumentText at reads ⊢
    split
    · rename_i ends
      rw [if_pos ends] at reads
      refine .inr ⟨rfl, ?_⟩
      obtain ⟨front, letters, trail, rfl, blank, tight⟩ := endsInComment_iff.1 ends
      rw [argumentTokens_append rfl blank, if_pos ends, Token.trimmed, tight, List.append_assoc] at reads
      obtain ⟨readsFront, readsComment⟩ := reads.of_append
      obtain ⟨shown, shows⟩ := readsFront.exists_shows
      obtain ⟨_, _, stands, _⟩ := Reads.cons_iff.1 readsComment
      cases stands with
      | comment line _ =>
        exact ⟨shown, _, by simpa [Token.text] using shows, fun newline => line _ newline rfl⟩
    · exact .inl rfl

private theorem areArguments_of_pieces {pieces : List (List Token)}
    (delimited : ∀ piece ∈ pieces, Delimited piece) (visible : ∀ piece ∈ pieces, IsVisible piece)
    (offset : Nat) : AreArguments offset (pieces.map source) (placedArguments offset pieces) := by
  induction pieces generalizing offset with
  | nil => exact .nil offset
  | cons piece pieces ih =>
    obtain ⟨delimitedFirst, delimitedLater⟩ := List.forall_mem_cons.1 delimited
    obtain ⟨visibleFirst, visibleLater⟩ := List.forall_mem_cons.1 visible
    exact .cons (isArgument_of_delimited delimitedFirst visibleFirst offset)
      (ih delimitedLater visibleLater _)

/-! ## Main statement -/

/-- A list that is read ends at the one parenthesis that closes it, quoted spans and comments being skipped.
The pieces that its characters are split into, with commas between them, are what stands in front of that
parenthesis; each argument is its piece without the blanks at its ends, in its place; and where an argument is
not expanded, at whatever depth, only calls are at fault. -/
theorem arguments_of_closed_list (read : readArguments name opening offset text = .ok list) :
    (∃ shown, Shows text shown (')' :: list.behind.text) ∧ ClosesAll 0 shown) ∧
      (∀ shown behind, Shows text shown (')' :: behind) → ClosesAll 0 shown →
        behind = list.behind.text) ∧
      text = list.source ++ ')' :: list.behind.text ∧
      list.behind.offset = offset + byteLength list.source + 1 ∧
      List.intercalate [','] ((splitCharacters 0 offset text).pieces.map Piece.raw) = list.source ∧
      (list.arguments = [] ∧ allBlank list.source = true ∨
        AreArguments offset ((splitCharacters 0 offset text).pieces.map Piece.raw) list.arguments) ∧
      ∀ argument ∈ list.arguments, argument.IsSound := by
  have closed := (readArguments_closed read).1
  obtain ⟨pieces, isList, reads⟩ := exists_pieces_of_closed closed
  obtain ⟨holds, behind⟩ := readArguments_places isList reads read
  have raws := map_raw (splitPieces_of_reads offset isList reads).2
  have written := readArguments_pieces isList reads read
  rw [splitCharacters_eq_splitPieces, raws, intercalate_source, ← written]
  rw [← splitCharacters_eq_splitPieces] at closed
  have readsList := reads.lossless
  rw [source_append, ← written, List.append_assoc] at readsList
  refine ⟨splitCharacters_closed_iff.1 ⟨_, closed⟩, fun shown behind' shows closes => ?_, readsList.symm, ?_, rfl,
    ?_, fun argument member => ?_⟩
  · obtain ⟨place, closed'⟩ := splitCharacters_closed_iff.2 ⟨shown, shows, closes⟩
    exact (congrArg Fragment.text (Ending.closed.inj (closed.symm.trans closed'))).symm
  · rw [congrArg Fragment.offset behind, source_append, byteLength_append, ← written, ← Nat.add_assoc]
    rfl
  · generalize list.arguments = arguments at holds
    cases holds with
    | none blank =>
      refine .inl ⟨rfl, ?_⟩
      rw [written]
      exact allBlank_source (not_isVisible_iff.1 blank)
    | each visible => exact .inr (areArguments_of_pieces (delimited_of_reads reads) visible offset)
  · obtain ⟨tokens, readsArgument, isPiece⟩ := readArguments_isPiece read argument member
    exact isSound_of_isPiece readsArgument isPiece

/-- Parentheses and commas in a span, in a nested list and in a comment neither end the list nor split it. The
nested list has a blank argument, and that is all that is wrong with it. -/
theorem arguments_of_closed_list_of_hidden_parentheses :
    let text := "')', g(y,, 'z'),\n (a, b) --)\n) + 1".toList
    let nested : Fragment := ⟨7, "g(y,, 'z')".toList⟩
    let arguments := [⟨2, "')'".toList⟩, nested, ⟨20, "(a, b) --)\n".toList⟩]
    readArguments "f" ⟨1, '(' :: text⟩ 2 text =
        .ok ⟨arguments, "')', g(y,, 'z'),\n (a, b) --)\n".toList, ⟨32, " + 1".toList⟩⟩ ∧
      (∃ shown, Shows text shown ") + 1".toList ∧ ClosesAll 0 shown) ∧
      AreArguments 2 ["')'".toList, " g(y,, 'z')".toList, "\n (a, b) --)\n".toList] arguments ∧
      nested.IsSound ∧
      expandFragment (Catalog.empty.insert ⟨"g", 1, "[<p1>]", none⟩) 8 8 nested =
        .error (.malformed (.emptyArgument "g") 11 ", 'z')") := by
  intro text nested arguments
  have read : readArguments "f" ⟨1, '(' :: text⟩ 2 text =
      .ok ⟨arguments, "')', g(y,, 'z'),\n (a, b) --)\n".toList, ⟨32, " + 1".toList⟩⟩ :=
    eq_ok_of_toOption (by decide +kernel)
  obtain ⟨closing, _, _, _, _, places, sound⟩ := arguments_of_closed_list read
  have raws : (splitCharacters 0 2 text).pieces.map Piece.raw =
      ["')'".toList, " g(y,, 'z')".toList, "\n (a, b) --)\n".toList] := by decide +kernel
  rw [raws] at places
  refine ⟨read, closing, places.resolve_left nofun, sound nested (by simp [arguments]), ?_⟩
  decide +kernel

end PortableSql.Query
