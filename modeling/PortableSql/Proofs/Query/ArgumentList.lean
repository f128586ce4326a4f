import PortableSql.Proofs.Query.Trimming
import PortableSql.Proofs.Result

/-!
# Argument lists

Which texts are argument lists, and which arguments they hold (`readArguments_eq_ok_iff`): pieces with
commas between them up to a closing parenthesis, no piece blank, each piece one argument. Blanks
alone are a list without arguments.
-/
namespace PortableSql.Query

open Text

/-- Whether a piece holds something else than blanks. -/
def IsVisible (piece : List Token) : Prop :=
  ∃ token ∈ piece, token.isBlank = false

theorem not_isVisible_iff {piece : List Token} :
    ¬ IsVisible piece ↔ ∀ token ∈ piece, token.isBlank = true := by
  simp [IsVisible]

theorem Reads.isVisible_iff {text rest : List Char} {tokens : List Token}
    (reads : Reads text tokens rest) : IsVisible tokens ↔ allBlank (source tokens) = false := by
  rw [← not_iff_not, not_isVisible_iff, Bool.not_eq_false]
  exact ⟨allBlank_source, reads.isBlank_of_allBlank⟩

/-- A blank piece holds the empty argument. -/
theorem argumentText_of_blank {piece : List Token} (blank : ¬ IsVisible piece) :
    argumentText piece = [] := by
  rw [not_isVisible_iff] at blank
  have noComment : endsInComment piece = false := by
    unfold endsInComment
    rw [lastToken?_eq_none_iff.2 blank]
  rw [argumentText, noComment, if_neg (by simp), trim,
    trimStart_eq_nil_iff.2 (allBlank_source blank)]
  rfl

theorem argumentText_ne_nil {piece : List Token} (delimited : Delimited piece)
    (visible : IsVisible piece) : argumentText piece ≠ [] := by
  obtain ⟨text, rest, reads, _⟩ := delimited
  obtain ⟨token, member, visible⟩ := visible
  have remains := reads.trim_source_ne_nil member visible
  unfold argumentText
  split
  · simp
  · exact remains

theorem isPiece_of_blank {tokens : List Token} (blank : ∀ token ∈ tokens, token.isBlank = true) :
    IsPiece tokens := by
  induction tokens with
  | nil => exact .nil
  | cons token tokens ih =>
    have first := blank token (by simp)
    refine .other ?_ ?_ ?_ (ih fun other member => blank other (by simp [member])) <;>
      · rintro rfl
        cases first

theorem isList_of_blank {blanks : List Token} (blank : ¬ IsVisible blanks) : IsList [blanks] := by
  refine ⟨by simp, fun piece member => ?_⟩
  rw [List.mem_singleton.1 member]
  exact isPiece_of_blank (not_isVisible_iff.1 blank)

/-- The texts of the arguments that the pieces of a list hold. -/
inductive HoldsTexts (pieces : List (List Token)) : List (List Char) → Prop
  | none (blank : ¬ IsVisible (List.intercalate [.comma] pieces)) : HoldsTexts pieces []
  | each (visible : ∀ piece ∈ pieces, IsVisible piece) :
      HoldsTexts pieces (pieces.map argumentText)

/-- A piece gives its argument, unless it is blank. -/
private theorem argument?_eq_ok_iff {name : String} {piece : Piece} {tokens : List Token}
    {argument : Fragment} (holds : piece.Holds tokens) (delimited : Delimited tokens) :
    piece.argument? name = .ok argument ↔ IsVisible tokens ∧ argument = piece.argument := by
  obtain ⟨text, rest, reads, _⟩ := delimited
  rw [reads.isVisible_iff, Piece.argument?, holds.raw]
  cases allBlank (source tokens) <;> simp [eq_comm]

private theorem mapM_argument?_eq_ok_iff {name : String} {pieces : List Piece}
    {tokens : List (List Token)} {arguments : List Fragment}
    (holds : List.Forall₂ Piece.Holds pieces tokens)
    (delimited : ∀ piece ∈ tokens, Delimited piece) :
    pieces.mapM (Piece.argument? name) = .ok arguments ↔
      (∀ piece ∈ tokens, IsVisible piece) ∧ arguments = pieces.map Piece.argument := by
  rw [mapM_eq_ok_iff]
  induction holds generalizing arguments with
  | nil => simp
  | @cons piece tokens pieces tokensLater holdsFirst _ ih =>
    have first := delimited tokens (by simp)
    have later : ∀ piece ∈ tokensLater, Delimited piece := by
      intro piece member
      exact delimited piece (by simp [member])
    rw [List.forall₂_cons_left_iff]
    constructor
    · rintro ⟨argument, arguments, given, rest, rfl⟩
      obtain ⟨visible, rfl⟩ := (argument?_eq_ok_iff holdsFirst first).1 given
      obtain ⟨others, rfl⟩ := (ih later).1 rest
      refine ⟨fun piece member => ?_, rfl⟩
      rcases List.mem_cons.1 member with rfl | member
      · exact visible
      · exact others piece member
    · rintro ⟨visible, rfl⟩
      have others : ∀ piece ∈ tokensLater, IsVisible piece := by
        intro piece member
        exact visible piece (by simp [member])
      exact ⟨_, _, (argument?_eq_ok_iff holdsFirst first).2 ⟨visible tokens (by simp), rfl⟩,
        (ih later).2 ⟨others, rfl⟩, rfl⟩

/-- A list of pieces holds blanks alone where it has one piece and that one is blank. -/
private theorem isVisible_intercalate_iff {first : List Token} {later : List (List Token)} :
    IsVisible (List.intercalate [.comma] (first :: later)) ↔ later ≠ [] ∨ IsVisible first := by
  rw [intercalate_cons]
  cases later with
  | nil => simp
  | cons second later =>
    have comma : Token.comma ∈ first ++ (second :: later).flatMap fun piece => [.comma] ++ piece := by
      simp
    simp only [ne_eq, reduceCtorEq, not_false_eq_true, true_or, iff_true]
    exact ⟨.comma, comma, rfl⟩

theorem IsList.isVisible {pieces : List (List Token)} (list : IsList pieces)
    (visible : ∀ piece ∈ pieces, IsVisible piece) : IsVisible (List.intercalate [.comma] pieces) := by
  obtain ⟨first, later, rfl⟩ := List.exists_cons_of_ne_nil list.nonempty
  exact isVisible_intercalate_iff.2 (.inr (visible first (by simp)))

private theorem map_argument_text {pieces : List Piece} {tokens : List (List Token)}
    (holds : List.Forall₂ Piece.Holds pieces tokens)
    (delimited : ∀ piece ∈ tokens, Delimited piece) :
    (pieces.map Piece.argument).map Fragment.text = tokens.map argumentText := by
  induction holds with
  | nil => rfl
  | @cons piece tokens pieces tokensLater holdsFirst _ ih =>
    have first := holdsFirst.argument_text (delimited tokens (by simp))
    have later := ih fun piece member => delimited piece (by simp [member])
    simp only [List.map_cons, first, later]

private theorem split_arguments_iff (name : String) {split : Split} {tokens : List (List Token)}
    {texts : List (List Char)} (holds : List.Forall₂ Piece.Holds split.pieces tokens)
    (delimited : ∀ piece ∈ tokens, Delimited piece) :
    (∃ arguments, split.arguments name = .ok arguments ∧ arguments.map Fragment.text = texts) ↔
      HoldsTexts tokens texts := by
  obtain ⟨first, later, holdsFirst, holdsLater, rfl⟩ := List.forall₂_cons_left_iff.1 holds
  obtain ⟨text, rest, reads, _⟩ := delimited first (by simp)
  have blankList : (split.later.isEmpty && allBlank split.first.raw) = true ↔
      ¬ IsVisible (List.intercalate [.comma] (first :: later)) := by
    have sameLength := holdsLater.length_eq
    rw [isVisible_intercalate_iff, reads.isVisible_iff, holdsFirst.raw, Bool.and_eq_true,
      List.isEmpty_iff, ← List.length_eq_zero_iff, sameLength, List.length_eq_zero_iff]
    simp
  unfold Split.arguments
  split
  · rename_i blank
    have hidden := blankList.1 blank
    constructor
    · rintro ⟨_, same, rfl⟩
      cases same
      exact .none hidden
    · intro holdsTexts
      cases holdsTexts with
      | none => exact ⟨[], rfl, rfl⟩
      | each visible =>
        exact absurd (isVisible_intercalate_iff.2 (.inr (visible first (by simp)))) hidden
  · rename_i visibleList
    have visible := not_not.1 (mt blankList.2 visibleList)
    constructor
    · rintro ⟨arguments, given, rfl⟩
      obtain ⟨all, rfl⟩ := (mapM_argument?_eq_ok_iff holds delimited).1 given
      rw [map_argument_text holds delimited]
      exact .each all
    · intro holdsTexts
      cases holdsTexts with
      | none hidden => exact absurd visible hidden
      | each all =>
        exact ⟨_, (mapM_argument?_eq_ok_iff holds delimited).2 ⟨all, rfl⟩,
          map_argument_text holds delimited⟩

theorem readArguments_closed {name : String} {opening : Fragment} {offset : Nat}
    {text : List Char} {list : ArgumentList}
    (read : readArguments name opening offset text = .ok list) :
    (splitPieces 0 offset text).ending = .closed list.behind ∧
      (splitPieces 0 offset text).arguments name = .ok list.arguments := by
  unfold readArguments at read
  dsimp only at read
  split at read
  · rename_i behind closed
    obtain ⟨arguments, given, rfl⟩ := map_eq_ok_iff.1 read
    exact ⟨closed, given⟩
  · obtain ⟨_, _, fails⟩ := bind_eq_ok_iff.1 read
    cases fails
  · obtain ⟨_, _, fails⟩ := bind_eq_ok_iff.1 read
    cases fails

/-- The arguments that are read are those of the pieces. -/
theorem holdsTexts_of_readArguments {name : String} {opening : Fragment} {offset : Nat}
    {text rest : List Char} {list : ArgumentList} {pieces : List (List Token)}
    (isList : IsList pieces)
    (reads : Reads text (List.intercalate [.comma] pieces ++ [.closing]) rest)
    (read : readArguments name opening offset text = .ok list) :
    HoldsTexts pieces (list.arguments.map Fragment.text) := by
  have given := (readArguments_closed read).2
  have holds := (splitPieces_of_reads offset isList reads).2
  exact (split_arguments_iff name holds (delimited_of_reads reads)).1 ⟨_, given, rfl⟩

/-- The argument lists that are read: where they end, and which arguments they hold. -/
theorem readArguments_eq_ok_iff {name : String} {opening : Fragment} {offset : Nat}
    {text rest : List Char} {texts : List (List Char)} :
    (∃ list, readArguments name opening offset text = .ok list ∧
        list.arguments.map Fragment.text = texts ∧ list.behind.text = rest) ↔
      ∃ pieces, IsList pieces ∧
        Reads text (List.intercalate [.comma] pieces ++ [.closing]) rest ∧
        HoldsTexts pieces texts := by
  constructor
  · rintro ⟨list, read, rfl, rfl⟩
    obtain ⟨pieces, isList, reads⟩ := exists_pieces_of_closed (readArguments_closed read).1
    exact ⟨pieces, isList, reads, holdsTexts_of_readArguments isList reads read⟩
  · rintro ⟨pieces, isList, reads, holdsTexts⟩
    obtain ⟨ending, holds⟩ := splitPieces_of_reads offset isList reads
    obtain ⟨arguments, given, rfl⟩ :=
      (split_arguments_iff name holds (delimited_of_reads reads)).2 holdsTexts
    unfold readArguments
    dsimp only
    rw [ending, given]
    exact ⟨_, rfl, rfl, rfl⟩

end PortableSql.Query
