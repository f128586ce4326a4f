import PortableSql.Proofs.Query.Places

/-!
# Where arguments stand

The arguments of a list with their offsets, said on the pieces: each argument stands behind the blanks
that its piece begins with, and the pieces follow each other with a comma between them
(`placedArguments`). Reading a list gives exactly these (`readArguments_places`,
`HoldsArguments.readArguments`), and no two of them overlap.
-/
namespace PortableSql.Query

open Text

/-- The place behind a fragment. -/
def Fragment.stop (fragment : Fragment) : Nat :=
  fragment.offset + byteLength fragment.text

/-- The arguments that pieces hold, where the first piece begins at `offset`. -/
def placedArguments : Nat → List (List Token) → List Fragment
  | _, [] => []
  | offset, piece :: pieces =>
    ⟨offset + byteLength ((source piece).takeWhile isBlank), argumentText piece⟩ ::
      placedArguments (offset + byteLength (source piece) + 1) pieces

/-- The arguments that the pieces of a list hold: none where the list is blank. -/
inductive HoldsArguments (offset : Nat) (pieces : List (List Token)) : List Fragment → Prop
  | none (blank : ¬ IsVisible (List.intercalate [.comma] pieces)) : HoldsArguments offset pieces []
  | each (visible : ∀ piece ∈ pieces, IsVisible piece) :
      HoldsArguments offset pieces (placedArguments offset pieces)

/-! ## The text of an argument in its piece -/

/-- The blanks in front of an argument are those in front of the text that is kept. -/
private theorem takeWhile_kept {piece : Piece} (visible : allBlank piece.raw = false) :
    piece.kept.takeWhile isBlank = piece.raw.takeWhile isBlank := by
  obtain ⟨back, whole⟩ := piece.kept_isPrefix
  obtain ⟨c, rest, shape⟩ := List.exists_cons_of_ne_nil (Piece.trimStart_kept_ne_nil visible)
  have visibleFirst : isBlank c = false := head?_dropWhile_eq_false (by rw [← trimStart, shape]; rfl)
  have split : piece.kept = piece.kept.takeWhile isBlank ++ c :: rest := by
    rw [← shape, trimStart, List.takeWhile_append_dropWhile]
  have inside : ∀ d ∈ piece.kept.takeWhile isBlank, isBlank d = true :=
    fun d member => List.mem_takeWhile_imp member
  rw [← whole]
  conv_rhs => rw [split, List.append_assoc, List.takeWhile_append_of_pos inside]
  rw [List.cons_append, List.takeWhile_cons_of_neg (by simp [visibleFirst]), List.append_nil]

/-- The argument of a piece in its place. -/
private theorem argument_place {piece : Piece} {tokens : List Token} (holds : piece.Holds tokens)
    (delimited : Delimited tokens) (visible : IsVisible tokens) :
    piece.argument =
      ⟨piece.start.offset + byteLength ((source tokens).takeWhile isBlank), argumentText tokens⟩ := by
  obtain ⟨text, rest, reads, _⟩ := id delimited
  have raw : allBlank piece.raw = false := by
    rw [holds.raw]
    exact reads.isVisible_iff.1 visible
  rw [← holds.argument_text delimited, ← holds.raw, ← takeWhile_kept raw]
  rfl

/-- The text of a piece: blanks, its argument, and what is cut off behind it. -/
theorem Delimited.source_eq {piece : List Token} (delimited : Delimited piece)
    (visible : IsVisible piece) :
    ∃ back, source piece =
      (source piece).takeWhile isBlank ++ (argumentText piece ++ back) := by
  obtain ⟨text, rest, reads, _⟩ := id delimited
  let held : Piece := ⟨⟨0, []⟩, source piece, lastCommentEnd piece⟩
  have holds : held.Holds piece := ⟨rfl, rfl⟩
  have raw : allBlank held.raw = false := reads.isVisible_iff.1 visible
  obtain ⟨back, whole⟩ := held.kept_isPrefix
  refine ⟨back, ?_⟩
  calc source piece = held.kept ++ back := whole.symm
    _ = held.kept.takeWhile isBlank ++ trimStart held.kept ++ back := by
        rw [trimStart, List.takeWhile_append_dropWhile]
    _ = (source piece).takeWhile isBlank ++ (argumentText piece ++ back) := by
        rw [takeWhile_kept raw, ← holds.argument_text delimited, List.append_assoc]
        rfl

/-! ## Reading a list -/

private theorem map_argument_places {offset : Nat} {pieces : List Piece}
    {tokens : List (List Token)} (holds : List.Forall₂ Piece.Holds pieces tokens)
    (delimited : ∀ piece ∈ tokens, Delimited piece) (visible : ∀ piece ∈ tokens, IsVisible piece)
    (starts : pieces.map (fun piece => piece.start.offset) = pieceOffsets offset tokens) :
    pieces.map Piece.argument = placedArguments offset tokens := by
  induction holds generalizing offset with
  | nil => rfl
  | @cons piece tokens pieces later holdsFirst _ ih =>
    obtain ⟨delimitedFirst, delimitedLater⟩ := List.forall_mem_cons.1 delimited
    obtain ⟨visibleFirst, visibleLater⟩ := List.forall_mem_cons.1 visible
    obtain ⟨start, starts⟩ := List.cons.inj starts
    have place := argument_place holdsFirst delimitedFirst visibleFirst
    rw [show piece.start.offset = offset from start] at place
    rw [List.map_cons, placedArguments, place, ih delimitedLater visibleLater starts]

private theorem eq_map_argument {name : String} {pieces : List Piece} {arguments : List Fragment}
    (given : pieces.mapM (Piece.argument? name) = .ok arguments) :
    arguments = pieces.map Piece.argument := by
  have each := mapM_eq_ok_iff.1 given
  clear given
  induction each with
  | nil => rfl
  | cons first _ ih => rw [List.map_cons, (Piece.argument?_eq_ok first).2, ih]

/-- The arguments that are read stand where the pieces say, and so does what follows the list. -/
theorem readArguments_places {name : String} {opening : Fragment} {offset : Nat}
    {text rest : List Char} {list : ArgumentList} {pieces : List (List Token)}
    (isList : IsList pieces)
    (reads : Reads text (List.intercalate [.comma] pieces ++ [.closing]) rest)
    (read : readArguments name opening offset text = .ok list) :
    HoldsArguments offset pieces list.arguments ∧
      list.behind =
        ⟨offset + byteLength (source (List.intercalate [.comma] pieces ++ [.closing])), rest⟩ := by
  obtain ⟨closed, given⟩ := readArguments_closed read
  obtain ⟨ending, holds⟩ := splitPieces_of_reads offset isList reads
  refine ⟨?_, by rw [ending] at closed; exact (Ending.closed.inj closed).symm⟩
  have texts := holdsTexts_of_readArguments isList reads read
  generalize same : list.arguments.map Fragment.text = held at texts
  cases texts with
  | none blank =>
    rw [List.map_eq_nil_iff.1 same]
    exact .none blank
  | each visible =>
    unfold Split.arguments at given
    split at given
    · -- a list that is read as blank holds no piece
      rw [← Except.ok.inj given, List.map_nil, eq_comm, List.map_eq_nil_iff] at same
      exact absurd same isList.nonempty
    · have places := map_argument_places holds (delimited_of_reads reads) visible
        (splitPieces_starts offset isList reads)
      rw [eq_map_argument given, places]
      exact .each visible

/-- A list of pieces holds the same arguments however they are found. -/
private theorem HoldsArguments.unique {offset : Nat} {pieces : List (List Token)}
    {arguments others : List Fragment} (list : IsList pieces)
    (holds : HoldsArguments offset pieces arguments) (holds' : HoldsArguments offset pieces others) :
    arguments = others := by
  cases holds with
  | none blank =>
    cases holds' with
    | none => rfl
    | each visible => exact absurd (list.isVisible visible) blank
  | each visible =>
    cases holds' with
    | none blank => exact absurd (list.isVisible visible) blank
    | each => rfl

private theorem HoldsArguments.exists_texts {offset : Nat} {pieces : List (List Token)}
    {arguments : List Fragment} (holds : HoldsArguments offset pieces arguments) :
    ∃ texts, HoldsTexts pieces texts := by
  cases holds with
  | none blank => exact ⟨[], .none blank⟩
  | each visible => exact ⟨_, .each visible⟩

/-- A list that holds arguments is read. -/
theorem HoldsArguments.readArguments {offset : Nat} {pieces : List (List Token)}
    {arguments : List Fragment} {text rest : List Char}
    (holds : HoldsArguments offset pieces arguments) (isList : IsList pieces)
    (reads : Reads text (List.intercalate [.comma] pieces ++ [.closing]) rest)
    (name : String) (opening : Fragment) :
    ∃ list, readArguments name opening offset text = .ok list ∧ list.arguments = arguments ∧
      list.behind.text = rest := by
  obtain ⟨texts, holdsTexts⟩ := holds.exists_texts
  obtain ⟨list, read, _, behind⟩ := readArguments_eq_ok_iff.2 ⟨pieces, isList, reads, holdsTexts⟩
  have holds' := (readArguments_places isList reads read).1
  exact ⟨list, read, holds'.unique isList holds, behind⟩

/-! ## Order -/

/-- The arguments of a list stand in it one behind the other. -/
theorem placedArguments_ordered {offset : Nat} {pieces : List (List Token)}
    (delimited : ∀ piece ∈ pieces, Delimited piece) (visible : ∀ piece ∈ pieces, IsVisible piece) :
    (∀ argument ∈ placedArguments offset pieces, offset ≤ argument.offset ∧
        argument.stop ≤ offset + byteLength (source (List.intercalate [.comma] pieces))) ∧
      (placedArguments offset pieces).Pairwise fun first second => first.stop ≤ second.offset := by
  induction pieces generalizing offset with
  | nil => exact ⟨by simp [placedArguments], .nil⟩
  | cons piece pieces ih =>
    obtain ⟨delimitedFirst, delimitedLater⟩ := List.forall_mem_cons.1 delimited
    obtain ⟨visibleFirst, visibleLater⟩ := List.forall_mem_cons.1 visible
    obtain ⟨back, whole⟩ := delimitedFirst.source_eq visibleFirst
    obtain ⟨within, ordered⟩ :=
      @ih (offset + byteLength (source piece) + 1) delimitedLater visibleLater
    have length := congrArg byteLength whole
    rw [byteLength_append, byteLength_append] at length
    have stop : offset + byteLength ((source piece).takeWhile isBlank) +
        byteLength (argumentText piece) ≤ offset + byteLength (source piece) := by omega
    have split : pieces ≠ [] → byteLength (source (List.intercalate [.comma] (piece :: pieces))) =
        byteLength (source piece) + 1 +
          byteLength (source (List.intercalate [.comma] pieces)) := by
      intro more
      obtain ⟨second, later, rfl⟩ := List.exists_cons_of_ne_nil more
      rw [intercalate_cons, List.flatMap_cons, List.append_assoc, ← intercalate_cons [.comma] second,
        source_append, source_append, byteLength_append, byteLength_append, ← Nat.add_assoc]
      rfl
    have first : byteLength (source piece) ≤
        byteLength (source (List.intercalate [.comma] (piece :: pieces))) := by
      rw [intercalate_cons, source_append, byteLength_append]
      omega
    refine ⟨List.forall_mem_cons.2 ⟨⟨Nat.le_add_right _ _, ?_⟩, fun argument member => ?_⟩,
      List.pairwise_cons.2 ⟨fun argument member => ?_, ordered⟩⟩
    · exact Nat.le_trans stop (Nat.add_le_add_left first offset)
    · obtain ⟨low, high⟩ := within argument member
      have more : pieces ≠ [] := by
        rintro rfl
        cases member
      rw [split more]
      exact ⟨by omega, by omega⟩
    · obtain ⟨low, _⟩ := within argument member
      exact Nat.le_trans stop (by omega)

end PortableSql.Query
