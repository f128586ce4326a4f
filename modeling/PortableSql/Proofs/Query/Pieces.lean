import Mathlib.Data.List.Forall2
import PortableSql.Proofs.Query.Lexis
import PortableSql.Query.Arguments

/-!
# The pieces of an argument list

The grammar of what stands between the parentheses of a call: pieces with commas between them, where a
piece is a balanced run of tokens whose commas all lie in parentheses. The splitting by a counter of
open parentheses finds exactly these pieces (`exists_pieces_of_closed`, `splitPieces_of_reads`), and
`EndsPiece` is the invariant that its counter keeps.
-/
namespace PortableSql.Query

open Text

namespace Token

abbrev opening : Token := .symbol '('

abbrev closing : Token := .symbol ')'

abbrev comma : Token := .symbol ','

/-! Parentheses and commas are tokens wherever they stand. -/

theorem opening_standsBefore (next : Option Char) : opening.StandsBefore next :=
  .symbol rfl rfl rfl fun dash => absurd dash (by decide)

theorem closing_standsBefore (next : Option Char) : closing.StandsBefore next :=
  .symbol rfl rfl rfl fun dash => absurd dash (by decide)

theorem comma_standsBefore (next : Option Char) : comma.StandsBefore next :=
  .symbol rfl rfl rfl fun dash => absurd dash (by decide)

end Token

/-- Tokens whose parentheses balance. -/
inductive Balanced : List Token → Prop
  | nil : Balanced []
  | other {token : Token} {tokens : List Token} (notOpening : token ≠ .opening)
      (notClosing : token ≠ .closing) (rest : Balanced tokens) : Balanced (token :: tokens)
  | group {inner tokens : List Token} (inside : Balanced inner) (rest : Balanced tokens) :
      Balanced (.opening :: (inner ++ .closing :: tokens))

/-- Balanced tokens all of whose commas lie in parentheses. -/
inductive IsPiece : List Token → Prop
  | nil : IsPiece []
  | other {token : Token} {tokens : List Token} (notOpening : token ≠ .opening)
      (notClosing : token ≠ .closing) (notComma : token ≠ .comma) (rest : IsPiece tokens) :
      IsPiece (token :: tokens)
  | group {inner tokens : List Token} (inside : Balanced inner) (rest : IsPiece tokens) :
      IsPiece (.opening :: (inner ++ .closing :: tokens))

theorem Balanced.append {front back : List Token} (balanced : Balanced front)
    (behind : Balanced back) : Balanced (front ++ back) := by
  induction balanced with
  | nil => exact behind
  | other notOpening notClosing _ ih => exact .other notOpening notClosing ih
  | group inside _ _ ih =>
    rw [List.cons_append, List.append_assoc, List.cons_append]
    exact .group inside ih

theorem IsPiece.append {front back : List Token} (piece : IsPiece front) (behind : IsPiece back) :
    IsPiece (front ++ back) := by
  induction piece with
  | nil => exact behind
  | other notOpening notClosing notComma _ ih => exact .other notOpening notClosing notComma ih
  | group inside _ ih =>
    rw [List.cons_append, List.append_assoc, List.cons_append]
    exact .group inside ih

theorem IsPiece.balanced {tokens : List Token} (piece : IsPiece tokens) : Balanced tokens := by
  induction piece with
  | nil => exact .nil
  | other notOpening notClosing _ _ ih => exact .other notOpening notClosing ih
  | group inside _ ih => exact .group inside ih

/-- The parenthesis that closes balanced tokens is found in one place. -/
theorem Balanced.eq_of_closing {front other back rest : List Token} (balanced : Balanced front)
    (isOther : Balanced other) (same : front ++ .closing :: back = other ++ .closing :: rest) :
    front = other ∧ back = rest := by
  induction balanced generalizing other back rest with
  | nil =>
    cases isOther with
    | nil => exact ⟨rfl, (List.cons.inj same).2⟩
    | other _ notClosing => exact absurd (List.cons.inj same).1.symm notClosing
    | group => cases (List.cons.inj same).1
  | other notOpening notClosing _ ih =>
    cases isOther with
    | nil => exact absurd (List.cons.inj same).1 notClosing
    | other _ _ isOther =>
      obtain ⟨rfl, behind⟩ := List.cons.inj same
      obtain ⟨rfl, rfl⟩ := ih isOther behind
      exact ⟨rfl, rfl⟩
    | group => exact absurd (List.cons.inj same).1 notOpening
  | @group inner tokens _ _ ihInside ih =>
    cases isOther with
    | nil => cases (List.cons.inj same).1
    | other notOpening => exact absurd (List.cons.inj same).1.symm notOpening
    | @group inner' tokens' inside isOther =>
      have within : inner ++ .closing :: (tokens ++ .closing :: back) =
          inner' ++ .closing :: (tokens' ++ .closing :: rest) := by simpa using same
      obtain ⟨rfl, behind⟩ := ihInside inside within
      obtain ⟨rfl, rfl⟩ := ih isOther behind
      exact ⟨rfl, rfl⟩

/-- No parenthesis closes balanced tokens in their midst. -/
theorem Balanced.not_closing {front back : List Token} (balanced : Balanced front) :
    ¬ Balanced (front ++ .closing :: back) := by
  intro whole
  have same : front ++ .closing :: (back ++ [.closing]) = front ++ .closing :: back ++ [.closing] := by
    simp
  have equal := (balanced.eq_of_closing whole same).1
  simp at equal

/-- What is left of a piece where so many of its parentheses are open. -/
def EndsPiece : Nat → List Token → Prop
  | 0, tokens => IsPiece tokens
  | depth + 1, tokens =>
    ∃ inner rest, tokens = inner ++ .closing :: rest ∧ Balanced inner ∧ EndsPiece depth rest

theorem endsPiece_nil {depth : Nat} : EndsPiece depth [] ↔ depth = 0 := by
  cases depth with
  | zero => exact ⟨fun _ => rfl, fun _ => .nil⟩
  | succ depth => simp [EndsPiece]

private theorem endsPiece_opening {depth : Nat} {tokens : List Token} :
    EndsPiece depth (.opening :: tokens) ↔ EndsPiece (depth + 1) tokens := by
  constructor
  · intro ends
    cases depth with
    | zero =>
      cases ends with
      | other notOpening => exact absurd rfl notOpening
      | group inside rest => exact ⟨_, _, rfl, inside, rest⟩
    | succ depth =>
      obtain ⟨inner, rest, same, balanced, ends⟩ := ends
      cases balanced with
      | nil => simp at same
      | other notOpening => exact absurd (List.cons.inj same).1.symm notOpening
      | @group inside later balanced balanced' =>
        obtain ⟨_, rfl⟩ := List.cons.inj same
        exact ⟨inside, later ++ .closing :: rest, by simp, balanced, later, rest, rfl, balanced', ends⟩
  · rintro ⟨inner, rest, rfl, balanced, ends⟩
    cases depth with
    | zero => exact .group balanced ends
    | succ depth =>
      obtain ⟨later, rest, rfl, balanced', ends⟩ := ends
      exact ⟨_, rest, by simp, .group balanced balanced', ends⟩

private theorem endsPiece_closing {depth : Nat} {tokens : List Token} :
    EndsPiece depth (.closing :: tokens) ↔ ∃ outer, depth = outer + 1 ∧ EndsPiece outer tokens := by
  cases depth with
  | zero =>
    constructor
    · intro ends
      cases ends with
      | other _ notClosing => exact absurd rfl notClosing
    · rintro ⟨outer, same, _⟩
      cases same
  | succ depth =>
    constructor
    · rintro ⟨inner, rest, same, balanced, ends⟩
      cases balanced with
      | nil =>
        obtain ⟨_, rfl⟩ := List.cons.inj same
        exact ⟨depth, rfl, ends⟩
      | other _ notClosing => exact absurd (List.cons.inj same).1.symm notClosing
      | group => simp at same
    · rintro ⟨outer, same, ends⟩
      cases same
      exact ⟨[], tokens, rfl, .nil, ends⟩

private theorem endsPiece_other {depth : Nat} {token : Token} {tokens : List Token}
    (notOpening : token ≠ .opening) (notClosing : token ≠ .closing) :
    EndsPiece depth (token :: tokens) ↔ (depth = 0 → token ≠ .comma) ∧ EndsPiece depth tokens := by
  cases depth with
  | zero =>
    constructor
    · intro ends
      cases ends with
      | other _ _ notComma rest => exact ⟨fun _ => notComma, rest⟩
      | group => exact absurd rfl notOpening
    · rintro ⟨notComma, rest⟩
      exact .other notOpening notClosing (notComma rfl) rest
  | succ depth =>
    constructor
    · rintro ⟨inner, rest, same, balanced, ends⟩
      cases balanced with
      | nil => exact absurd (List.cons.inj same).1 notClosing
      | other _ _ balanced =>
        obtain ⟨rfl, rfl⟩ := List.cons.inj same
        exact ⟨nofun, _, rest, rfl, balanced, ends⟩
      | group => exact absurd (List.cons.inj same).1 notOpening
    · rintro ⟨_, inner, rest, rfl, balanced, ends⟩
      exact ⟨token :: inner, rest, rfl, .other notOpening notClosing balanced, ends⟩

/-- Only parentheses change the number of open ones. -/
theorem depthBehind_of_ne {token : Token} (notOpening : token ≠ .opening) (notClosing : token ≠ .closing)
    (depth : Nat) : depthBehind depth token = depth := by
  unfold depthBehind
  split <;> simp_all

/-- The counter of open parentheses follows the grammar. -/
theorem endsPiece_cons_iff {depth : Nat} {token : Token} {tokens : List Token} :
    EndsPiece depth (token :: tokens) ↔
      (depth = 0 → token ≠ .closing ∧ token ≠ .comma) ∧
        EndsPiece (depthBehind depth token) tokens := by
  by_cases opens : token = .opening
  · subst opens
    simp [endsPiece_opening, depthBehind]
  · by_cases closes : token = .closing
    · subst closes
      rw [endsPiece_closing]
      cases depth with
      | zero => simp
      | succ depth => simp [depthBehind]
    · rw [endsPiece_other opens closes, depthBehind_of_ne opens closes]
      simp [closes]

/-- Whether the grammar of lists speaks of a token. -/
def Token.isStructural (token : Token) : Bool :=
  token = .opening || token = .closing || token = .comma

theorem Token.isStructural_iff {token : Token} :
    token.isStructural = true ↔ token = .opening ∨ token = .closing ∨ token = .comma := by
  simp [isStructural, or_assoc]

private theorem endsPiece_filter {depth : Nat} {tokens : List Token} :
    EndsPiece depth (tokens.filter Token.isStructural) ↔ EndsPiece depth tokens := by
  induction tokens generalizing depth with
  | nil => rfl
  | cons token tokens ih =>
    cases structural : token.isStructural with
    | true => rw [List.filter_cons_of_pos structural, endsPiece_cons_iff, endsPiece_cons_iff, ih]
    | false =>
      obtain ⟨notOpening, notClosing, notComma⟩ : token ≠ .opening ∧ token ≠ .closing ∧
          token ≠ .comma := by
        rw [← Bool.not_eq_true, Token.isStructural_iff] at structural
        simpa [not_or] using structural
      rw [List.filter_cons_of_neg (by simp [structural]), ih, endsPiece_cons_iff,
        depthBehind_of_ne notOpening notClosing]
      simp [notClosing, notComma]

/-- Only parentheses and commas decide whether tokens are a piece. -/
theorem IsPiece.of_filter_eq {tokens others : List Token} (piece : IsPiece tokens)
    (same : tokens.filter Token.isStructural = others.filter Token.isStructural) : IsPiece others := by
  have ends : EndsPiece 0 tokens := piece
  rw [← endsPiece_filter, same] at ends
  exact endsPiece_filter.1 ends

/-! ## Splitting -/

/-- The number of characters up to the end of the last comment. -/
def lastCommentEnd : List Token → Option Nat
  | [] => none
  | token :: tokens =>
    match lastCommentEnd tokens, token with
    | some count, _ => some (token.text.length + count)
    | none, .comment text => some text.length
    | none, _ => none

/-- A piece as the splitting keeps it holds these tokens. -/
structure Piece.Holds (piece : Piece) (tokens : List Token) : Prop where
  raw : piece.raw = source tokens
  commentEnd : piece.commentEnd = lastCommentEnd tokens

theorem Piece.holds_emptyAt (start : Fragment) : (emptyAt start).Holds [] :=
  ⟨rfl, rfl⟩

theorem Piece.Holds.extend {piece : Piece} {tokens : List Token} (holds : piece.Holds tokens)
    (start : Fragment) (token : Token) : (piece.extend start token).Holds (token :: tokens) := by
  refine ⟨?_, ?_⟩
  · simp [Piece.extend, holds.raw]
  · simp only [Piece.extend, holds.commentEnd]
    rfl

theorem intercalate_cons {α : Type} (separator first : List α) (later : List (List α)) :
    List.intercalate separator (first :: later) =
      first ++ later.flatMap fun piece => separator ++ piece := by
  induction later generalizing first with
  | nil => simp [List.intercalate]
  | cons second later ih =>
    have step : List.intercalate separator (first :: second :: later) =
        first ++ separator ++ List.intercalate separator (second :: later) := by
      simp [List.intercalate]
    rw [step, ih second]
    simp

theorem infix_intercalate {α : Type} (separator : List α) {piece : List α} {pieces : List (List α)}
    (among : piece ∈ pieces) : piece <:+: List.intercalate separator pieces := by
  cases pieces with
  | nil => cases among
  | cons first later =>
    rw [intercalate_cons]
    rcases List.mem_cons.1 among with rfl | among
    · exact (List.prefix_append ..).isInfix
    · have behind : piece <:+: separator ++ piece := (List.suffix_append ..).isInfix
      have inside := behind.trans (List.infix_of_mem_flatten (List.mem_map_of_mem among))
      exact inside.trans (List.suffix_append ..).isInfix

theorem mem_intercalate_of_mem {α : Type} {separator piece : List α} {pieces : List (List α)}
    {item : α} (among : piece ∈ pieces) (member : item ∈ piece) :
    item ∈ List.intercalate separator pieces :=
  (infix_intercalate separator among).subset member

/-- The text of a list of pieces whose first one is read already up to some place, and the closing
parenthesis behind them. -/
def listTokens (first : List Token) (later : List (List Token)) : List Token :=
  first ++ (later.flatMap (Token.comma :: ·)) ++ [.closing]

theorem listTokens_eq_intercalate (first : List Token) (later : List (List Token)) :
    listTokens first later = List.intercalate [.comma] (first :: later) ++ [.closing] := by
  rw [intercalate_cons]
  rfl

/-- Where the splitting finds the end of a list, pieces stand before it. -/
private theorem exists_tokens_of_closed {depth offset : Nat} {text : List Char} {behind : Fragment}
    (closed : (splitPieces depth offset text).ending = .closed behind) :
    ∃ first later, EndsPiece depth first ∧ (∀ piece ∈ later, IsPiece piece) ∧
      Reads text (listTokens first later) behind.text := by
  fun_induction splitPieces depth offset text with
  | case1 => cases closed
  | case2 => cases closed
  | case3 depth offset c cs token rest found next close =>
    obtain ⟨rfl, rfl⟩ := close
    cases closed
    exact ⟨[], [], .nil, by simp, .of_nextToken? found (.nil rest)⟩
  | case4 depth offset c cs token rest found next notClosing split comma ih =>
    obtain ⟨rfl, rfl⟩ := comma
    obtain ⟨first, later, ends, pieces, reads⟩ := ih closed
    refine ⟨[], first :: later, .nil, ?_, ?_⟩
    · intro piece member
      rcases List.mem_cons.1 member with rfl | member
      · exact ends
      · exact pieces piece member
    · simpa [listTokens] using Reads.of_nextToken? found reads
  | case5 depth offset c cs token rest found next notClosing split notComma ih =>
    obtain ⟨first, later, ends, pieces, reads⟩ := ih closed
    refine ⟨token :: first, later, ?_, pieces, .of_nextToken? found reads⟩
    rw [endsPiece_cons_iff]
    exact ⟨fun zero => ⟨fun same => notClosing ⟨zero, same⟩, fun same => notComma ⟨zero, same⟩⟩, ends⟩

@[simp] theorem listTokens_cons (token : Token) (first : List Token) (later : List (List Token)) :
    listTokens (token :: first) later = token :: listTokens first later := rfl

@[simp] theorem listTokens_comma (first : List Token) (later : List (List Token)) :
    listTokens [] (first :: later) = .comma :: listTokens first later := by
  simp [listTokens]

/-- One step of the splitting. -/
theorem splitPieces_cons {depth offset : Nat} {c : Char} {cs rest : List Char}
    {token : Token} (found : nextToken? c cs = some (token, rest)) :
    splitPieces depth offset (c :: cs) =
      if depth = 0 ∧ token = .closing then
        ⟨.emptyAt ⟨offset, c :: cs⟩, [], .closed ⟨offset + byteLength token.text, rest⟩⟩
      else
        let split := splitPieces (depthBehind depth token) (offset + byteLength token.text) rest
        if depth = 0 ∧ token = .comma then
          ⟨.emptyAt ⟨offset, c :: cs⟩, split.pieces, split.ending⟩
        else
          split.extend ⟨offset, c :: cs⟩ token := by
  rw [splitPieces]
  split
  · rename_i missing
    rw [found] at missing
    cases missing
  · rename_i token' rest' found'
    obtain ⟨rfl, rfl⟩ : token' = token ∧ rest' = rest := by simpa using found'.symm.trans found
    rfl

/-- A quote that is never closed ends the splitting. -/
theorem splitPieces_of_none {depth offset : Nat} {c : Char} {cs : List Char}
    (missing : nextToken? c cs = none) :
    splitPieces depth offset (c :: cs) =
      ⟨.emptyAt ⟨offset, c :: cs⟩, [], .unterminated c ⟨offset, c :: cs⟩⟩ := by
  rw [splitPieces]
  split
  · rfl
  · rename_i found
    cases missing.symm.trans found

/-- Where the pieces of a list begin, the first one at `offset`, with commas between them. -/
def pieceOffsets : Nat → List (List Token) → List Nat
  | _, [] => []
  | offset, piece :: pieces => offset :: pieceOffsets (offset + byteLength (source piece) + 1) pieces

/-- What the splitting finds where a list of these pieces begins. -/
private structure Finds (split : Split) (offset : Nat) (first : List Token)
    (later : List (List Token)) (rest : List Char) : Prop where
  ending : split.ending = .closed ⟨offset + byteLength (source (listTokens first later)), rest⟩
  starts : split.pieces.map (fun piece => piece.start.offset) = pieceOffsets offset (first :: later)
  first : split.first.Holds first
  later : List.Forall₂ Piece.Holds split.later later

private theorem finds_closing {offset : Nat} {c : Char} {cs rest : List Char}
    (found : nextToken? c cs = some (.closing, rest)) :
    Finds (splitPieces 0 offset (c :: cs)) offset [] [] rest := by
  rw [splitPieces_cons found, if_pos ⟨rfl, rfl⟩]
  exact ⟨rfl, rfl, Piece.holds_emptyAt _, .nil⟩

private theorem finds_comma {offset : Nat} {c : Char} {cs behind rest : List Char}
    {first : List Token} {later : List (List Token)}
    (found : nextToken? c cs = some (.comma, behind))
    (inner : Finds (splitPieces 0 (offset + byteLength Token.comma.text) behind)
      (offset + byteLength Token.comma.text) first later rest) :
    Finds (splitPieces 0 offset (c :: cs)) offset [] (first :: later) rest := by
  rw [splitPieces_cons found, if_neg (by simp), if_pos ⟨rfl, rfl⟩]
  refine ⟨?_, ?_, Piece.holds_emptyAt _, .cons inner.first inner.later⟩
  · rw [listTokens_comma, source_cons, byteLength_append, ← Nat.add_assoc]
    exact inner.ending
  · exact congrArg (offset :: ·) inner.starts

private theorem finds_token {depth offset : Nat} {c : Char} {cs behind rest : List Char}
    {token : Token} {first : List Token} {later : List (List Token)}
    (ends : EndsPiece depth (token :: first)) (found : nextToken? c cs = some (token, behind))
    (inner : Finds (splitPieces (depthBehind depth token) (offset + byteLength token.text) behind)
      (offset + byteLength token.text) first later rest) :
    Finds (splitPieces depth offset (c :: cs)) offset (token :: first) later rest := by
  obtain ⟨free, _⟩ := endsPiece_cons_iff.1 ends
  rw [splitPieces_cons found, if_neg fun close => (free close.1).1 close.2]
  dsimp only
  rw [if_neg fun comma => (free comma.1).2 comma.2]
  refine ⟨?_, ?_, inner.first.extend _ _, inner.later⟩
  · rw [listTokens_cons, source_cons, byteLength_append, ← Nat.add_assoc]
    exact inner.ending
  · have later := (List.cons.inj inner.starts).2
    rw [pieceOffsets, source_cons, byteLength_append, ← Nat.add_assoc offset]
    exact congrArg (offset :: ·) later

/-- The splitting finds the pieces of a list, and where it ends. -/
private theorem splitPieces_finds {depth offset : Nat} {text rest : List Char}
    {first : List Token} {later : List (List Token)} (ends : EndsPiece depth first)
    (pieces : ∀ piece ∈ later, IsPiece piece) (reads : Reads text (listTokens first later) rest) :
    Finds (splitPieces depth offset text) offset first later rest := by
  induction later generalizing first depth offset text with
  | nil =>
    induction first generalizing depth offset text with
    | nil =>
      obtain rfl := endsPiece_nil.1 ends
      obtain ⟨c, cs, rfl⟩ := List.exists_cons_of_ne_nil reads.text_ne_nil
      obtain ⟨behind, found, reads⟩ := reads.nextToken?
      cases reads
      exact finds_closing found
    | cons token first ih =>
      obtain ⟨c, cs, rfl⟩ := List.exists_cons_of_ne_nil reads.text_ne_nil
      obtain ⟨behind, found, reads⟩ := reads.nextToken?
      exact finds_token ends found (ih (endsPiece_cons_iff.1 ends).2 reads)
  | cons second later ihLater =>
    induction first generalizing depth offset text with
    | nil =>
      obtain rfl := endsPiece_nil.1 ends
      rw [listTokens_comma] at reads
      obtain ⟨c, cs, rfl⟩ := List.exists_cons_of_ne_nil reads.text_ne_nil
      obtain ⟨behind, found, reads⟩ := reads.nextToken?
      exact finds_comma found
        (ihLater (pieces second (by simp)) (fun piece member => pieces piece (by simp [member])) reads)
    | cons token first ih =>
      obtain ⟨c, cs, rfl⟩ := List.exists_cons_of_ne_nil reads.text_ne_nil
      obtain ⟨behind, found, reads⟩ := reads.nextToken?
      exact finds_token ends found (ih (endsPiece_cons_iff.1 ends).2 reads)

/-- An argument list: pieces with commas between them, at least one. -/
structure IsList (pieces : List (List Token)) : Prop where
  nonempty : pieces ≠ []
  isPiece : ∀ piece ∈ pieces, IsPiece piece

/-- The parentheses in a list balance. -/
theorem IsList.balanced {pieces : List (List Token)} (list : IsList pieces) :
    Balanced (List.intercalate [.comma] pieces) := by
  obtain ⟨first, later, rfl⟩ := List.exists_cons_of_ne_nil list.nonempty
  obtain ⟨isFirst, isLater⟩ := List.forall_mem_cons.1 list.isPiece
  rw [intercalate_cons]
  refine isFirst.balanced.append ?_
  clear list isFirst
  induction later with
  | nil => exact .nil
  | cons second later ih =>
    obtain ⟨isSecond, isLater⟩ := List.forall_mem_cons.1 isLater
    rw [List.flatMap_cons]
    exact .other nofun nofun (isSecond.balanced.append (ih isLater))

/-- The first piece of a list may begin with more tokens. -/
private theorem IsList.prepend {front : List Token} {pieces : List (List Token)} (isPiece : IsPiece front)
    (list : IsList pieces) :
    ∃ pieces', IsList pieces' ∧
      front ++ List.intercalate [.comma] pieces = List.intercalate [.comma] pieces' := by
  obtain ⟨first, later, rfl⟩ := List.exists_cons_of_ne_nil list.nonempty
  obtain ⟨isFirst, isLater⟩ := List.forall_mem_cons.1 list.isPiece
  refine ⟨(front ++ first) :: later, ⟨by simp, List.forall_mem_cons.2 ⟨isPiece.append isFirst, isLater⟩⟩, ?_⟩
  rw [intercalate_cons, intercalate_cons, List.append_assoc]

/-- Whatever balances is a list. -/
theorem Balanced.exists_pieces {tokens : List Token} (balanced : Balanced tokens) :
    ∃ pieces, IsList pieces ∧ tokens = List.intercalate [.comma] pieces := by
  induction balanced with
  | nil => exact ⟨[[]], ⟨by simp, List.forall_mem_singleton.2 .nil⟩, rfl⟩
  | @other token tokens notOpening notClosing _ ih =>
    obtain ⟨pieces, list, rfl⟩ := ih
    by_cases comma : token = .comma
    · obtain ⟨first, later, rfl⟩ := List.exists_cons_of_ne_nil list.nonempty
      refine ⟨[] :: first :: later, ⟨by simp, List.forall_mem_cons.2 ⟨.nil, list.isPiece⟩⟩, ?_⟩
      rw [comma, intercalate_cons, intercalate_cons]
      rfl
    · exact list.prepend (.other notOpening notClosing comma .nil)
  | @group inner tokens inside _ _ ih =>
    obtain ⟨pieces, list, rfl⟩ := ih
    have group : IsPiece (.opening :: (inner ++ [.closing])) := .group inside .nil
    simpa using list.prepend group

/-- Where the splitting of an argument list finds its end, pieces stand before the end. -/
theorem exists_pieces_of_closed {offset : Nat} {text : List Char} {behind : Fragment}
    (closed : (splitPieces 0 offset text).ending = .closed behind) :
    ∃ pieces, IsList pieces ∧
      Reads text (List.intercalate [.comma] pieces ++ [.closing]) behind.text := by
  obtain ⟨first, later, ends, isPiece, reads⟩ := exists_tokens_of_closed closed
  rw [listTokens_eq_intercalate] at reads
  refine ⟨first :: later, ⟨by simp, fun piece member => ?_⟩, reads⟩
  rcases List.mem_cons.1 member with rfl | member
  · exact ends
  · exact isPiece piece member

private theorem finds_of_reads (offset : Nat) {text rest : List Char} {first : List Token}
    {later : List (List Token)} (list : IsList (first :: later))
    (reads : Reads text (List.intercalate [.comma] (first :: later) ++ [.closing]) rest) :
    Finds (splitPieces 0 offset text) offset first later rest := by
  rw [← listTokens_eq_intercalate] at reads
  have isFirst : EndsPiece 0 first := list.isPiece first (by simp)
  exact splitPieces_finds isFirst (fun piece member => list.isPiece piece (by simp [member])) reads

/-- The splitting of an argument list finds its pieces and its end. -/
theorem splitPieces_of_reads (offset : Nat) {text rest : List Char} {pieces : List (List Token)}
    (list : IsList pieces)
    (reads : Reads text (List.intercalate [.comma] pieces ++ [.closing]) rest) :
    (splitPieces 0 offset text).ending =
        .closed ⟨offset + byteLength (source (List.intercalate [.comma] pieces ++ [.closing])), rest⟩ ∧
      List.Forall₂ Piece.Holds (splitPieces 0 offset text).pieces pieces := by
  obtain ⟨first, later, rfl⟩ := List.exists_cons_of_ne_nil list.nonempty
  have finds := finds_of_reads offset list reads
  rw [← listTokens_eq_intercalate]
  exact ⟨finds.ending, .cons finds.first finds.later⟩

/-- The splitting of an argument list finds where its pieces begin. -/
theorem splitPieces_starts (offset : Nat) {text rest : List Char} {pieces : List (List Token)}
    (list : IsList pieces)
    (reads : Reads text (List.intercalate [.comma] pieces ++ [.closing]) rest) :
    (splitPieces 0 offset text).pieces.map (fun piece => piece.start.offset) =
      pieceOffsets offset pieces := by
  obtain ⟨first, later, rfl⟩ := List.exists_cons_of_ne_nil list.nonempty
  exact (finds_of_reads offset list reads).starts

end PortableSql.Query
