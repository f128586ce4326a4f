import PortableSql.Proofs.Placeholder.QuerySkeleton
import PortableSql.Proofs.Query.CallFree
import PortableSql.Proofs.Query.Parentheses
import PortableSql.Query.Translate

/-!
# Queries without calls

Main statement: a query in which no call is opened is translated exactly if each of its quoted spans is
closed and its parentheses balance; all that happens to it then is that its placeholders are replaced.
Any other such query has one first fault, and the error is made of the query from there on
(`translate_of_callFree`).
-/
namespace PortableSql.Query

open Calendar Text

/-- The tokens of a text up to its end, or up to a quote that is never closed, and what is left. -/
structure Scanned (text : List Char) (tokens : List Token) (rest : List Char) : Prop where
  reads : Reads text tokens rest
  ends : rest = [] ∨
    ∃ quote body, rest = quote :: body ∧ isQuote quote = true ∧ QuotedBody quote body

/-- What a reader stumbles over first, with the tokens in front of it. A parenthesis that is never closed
is noticed at the end, and then the last one of them counts. -/
inductive FirstFault (rest : List Char) (tokens : List Token) : List Token → Fault → Prop
  | closing {front behind : List Token} (shape : tokens = front ++ .closing :: behind)
      (unopened : ¬ IsOpened front) (before : ClosesOpened front) :
      FirstFault rest tokens front .unbalancedParenthesis
  | literal {quote : Char} {body : List Char} (shape : rest = quote :: body)
      (before : ClosesOpened tokens) :
      FirstFault rest tokens tokens (.unterminatedLiteral quote)
  | opening {front behind : List Token} (ends : rest = []) (before : ClosesOpened tokens)
      (shape : tokens = front ++ .opening :: behind) (unclosed : ¬ IsClosed behind)
      (later : OpensClosed behind) :
      FirstFault rest tokens front .unclosedParenthesis

/-- A query from behind some of its tokens on. -/
def restBehind (query : List Char) (front : List Token) : Fragment :=
  ⟨byteLength (source front), query.drop (source front).length⟩

variable {catalog : Catalog} {text rest query : List Char} {front tokens : List Token}
  {opened : List (List Token)} {expandArgument : Fragment → Except Error (List Char)}

/-! ## Scanning -/

theorem scanned_lex (text : List Char) : Scanned text (lex text).1 (lex text).2 := by
  refine ⟨lex_reads text, ?_⟩
  rcases lex_unread text with done | ⟨c, cs, unread, missing⟩
  · exact .inl done
  · exact .inr ⟨c, cs, unread, nextToken?_eq_none_iff.1 missing⟩

namespace Scanned

theorem tail {token : Token} (scanned : Scanned text (token :: tokens) rest) :
    ∃ behind, text = token.text ++ behind ∧ token.StandsBefore behind.head? ∧
      Scanned behind tokens rest := by
  obtain ⟨behind, shape, stands, later⟩ := Reads.cons_iff.1 scanned.reads
  exact ⟨behind, shape, stands, later, scanned.ends⟩

theorem lex_eq (scanned : Scanned text tokens rest) : lex text = (tokens, rest) := by
  induction tokens generalizing text with
  | nil =>
    obtain ⟨⟨⟩, ends⟩ := scanned
    rcases ends with rfl | ⟨quote, body, rfl, opens⟩
    · exact lex_nil
    · exact lex_of_none (nextToken?_eq_none_iff.2 opens)
  | cons token tokens ih =>
    obtain ⟨behind, rfl, stands, later⟩ := scanned.tail
    rw [lex_append stands, ih later]

theorem unique {other : List Token} {rest' : List Char} (scanned : Scanned text tokens rest)
    (scanned' : Scanned text other rest') : other = tokens ∧ rest' = rest :=
  Prod.mk.inj (scanned'.lex_eq.symm.trans scanned.lex_eq)

/-- What is left begins with a quote. -/
theorem head?_ne_opening (scanned : Scanned text tokens rest) : rest.head? ≠ some '(' := by
  rcases scanned.ends with rfl | ⟨quote, body, rfl, opens, _⟩
  · nofun
  · rintro ⟨⟩
    cases opens

end Scanned

/-! ## Faults -/

namespace FirstFault

theorem not_accepted {fault : Fault} (first : FirstFault rest tokens front fault) :
    ¬ (rest = [] ∧ Balanced tokens) := by
  rintro ⟨done, balanced⟩
  obtain ⟨closes, opens⟩ := balanced_iff.1 balanced
  cases first with
  | closing shape unopened _ => exact unopened (closes _ _ shape)
  | literal shape _ =>
    rw [done] at shape
    cases shape
  | opening _ _ shape unclosed _ => exact unclosed (opens _ _ shape)

/-- A query has at most one first fault. -/
theorem unique {front' : List Token} {fault fault' : Fault}
    (first : FirstFault rest tokens front fault) (first' : FirstFault rest tokens front' fault') :
    front = front' ∧ fault = fault' := by
  cases first with
  | closing shape unopened before =>
    cases first' with
    | closing shape' unopened' before' =>
      rcases split_at_seam (shape.symm.trans shape') with
        ⟨same, _⟩ | ⟨middle, earlier, _⟩ | ⟨middle, later, _⟩
      · exact ⟨same.symm, rfl⟩
      · exact absurd (before _ _ earlier) unopened'
      · exact absurd (before' _ _ later) unopened
    | literal _ before' => exact absurd (before' _ _ shape) unopened
    | opening _ before' => exact absurd (before' _ _ shape) unopened
  | literal shape before =>
    cases first' with
    | closing shape' unopened' _ => exact absurd (before _ _ shape') unopened'
    | literal shape' _ =>
      cases shape.symm.trans shape'
      exact ⟨rfl, rfl⟩
    | opening done => cases shape.symm.trans done
  | opening done before shape unclosed later =>
    cases first' with
    | closing shape' unopened' _ => exact absurd (before _ _ shape') unopened'
    | literal shape' _ => cases done.symm.trans shape'
    | opening _ _ shape' unclosed' later' =>
      rcases split_at_seam (shape.symm.trans shape') with
        ⟨same, _⟩ | ⟨middle, _, behind⟩ | ⟨middle, _, behind⟩
      · exact ⟨same.symm, rfl⟩
      · exact absurd (later' _ _ behind) unclosed
      · exact absurd (later _ _ behind) unclosed'

end FirstFault

/-! ## Expansion -/

theorem restBehind_append (front : List Token) (text : List Char) :
    restBehind (source front ++ text) front = ⟨byteLength (source front), text⟩ := by
  rw [restBehind, List.drop_left]

/-- What is made of the text that is left of a query: it is kept if the query has no fault, and else it is
refused for the first one. -/
def Decided (query rest : List Char) (tokens : List Token) (text : List Char)
    (result : Except Error (List Char)) : Prop :=
  (rest = [] ∧ Balanced tokens ∧ result = .ok text) ∨
    ∃ front fault, FirstFault rest tokens front fault ∧
      result = .error ((restBehind query front).malformed fault)

theorem Decided.append_text {result : Except Error (List Char)}
    (decided : Decided query rest tokens text result) (letters : List Char) :
    Decided query rest tokens (letters ++ text) (result.map (letters ++ ·)) := by
  rcases decided with ⟨done, balanced, rfl⟩ | ⟨front, fault, first, rfl⟩
  · exact .inl ⟨done, balanced, rfl⟩
  · exact .inr ⟨front, fault, first, rfl⟩

/-- Where no token is left, the end of the query or a quote that is never closed has come. -/
private theorem expandCalls_at_end (scanned : Scanned text [] rest)
    (whole : query = source front ++ text) (leaves : LeavesOpen front opened)
    (closes : ClosesOpened front) :
    Decided query rest front text (expandCalls catalog expandArgument
      (opened.map (restBehind query)) (byteLength (source front)) text) := by
  obtain ⟨⟨⟩, ends⟩ := scanned
  rcases ends with rfl | ⟨quote, body, rfl, opens⟩
  · cases leaves with
    | nothing balanced =>
      exact .inl ⟨rfl, balanced, expandCalls_nil⟩
    | @opening outer inner opened _ balanced =>
      have first : FirstFault [] (outer ++ .opening :: inner) outer .unclosedParenthesis :=
        .opening rfl closes rfl balanced.not_isClosed balanced.opensClosed
      refine .inr ⟨outer, .unclosedParenthesis, first, ?_⟩
      rw [List.map_cons, expandCalls]
  · refine .inr ⟨front, .unterminatedLiteral quote, .literal rfl closes, ?_⟩
    have missing := nextToken?_eq_none_iff.2 opens
    rw [whole, restBehind_append, expandCalls]
    split
    · rfl
    · rename_i found
      cases missing.symm.trans found

/-- Behind tokens in which no parenthesis closes that is not open, the expansion decides on the query. -/
private theorem expandCalls_of_callFree (scanned : Scanned text tokens rest)
    (free : CallFree catalog tokens) (whole : query = source front ++ text)
    (leaves : LeavesOpen front opened) (closes : ClosesOpened front) :
    Decided query rest (front ++ tokens) text (expandCalls catalog expandArgument
      (opened.map (restBehind query)) (byteLength (source front)) text) := by
  -- the expansion keeps the query from each open parenthesis on, where `opened` has what is before it
  induction tokens generalizing text front opened with
  | nil =>
    rw [List.append_nil]
    exact expandCalls_at_end scanned whole leaves closes
  | cons token tokens ih =>
    have ends := scanned.head?_ne_opening
    obtain ⟨behind, shape, stands, later⟩ := scanned.tail
    obtain ⟨c, cs, rfl⟩ := List.exists_cons_of_ne_nil scanned.reads.text_ne_nil
    have found := nextToken?_of_standsBefore stands shape.symm
    have noName := callName?_eq_none later.reads ends free.not_opensCall
    have here : restBehind query front = ⟨byteLength (source front), c :: cs⟩ := by
      rw [whole, restBehind_append]
    rcases leaves.step closes (restBehind query) token with
      ⟨rfl, unopened, refused⟩ | ⟨after, still, leaves, closes⟩
    · refine .inr ⟨front, .unbalancedParenthesis, .closing rfl unopened closes, ?_⟩
      rw [here] at refused
      rw [expandCalls_cons found, noName, here]
      simp only [refused]
    · rw [here] at still
      have next : query = source (front ++ [token]) ++ behind := by
        rw [whole, shape, source_append, source_cons, source_nil, List.append_nil, List.append_assoc]
      have offset : byteLength (source front) + byteLength token.text =
          byteLength (source (front ++ [token])) := by
        rw [source_append, source_cons, source_nil, List.append_nil, byteLength_append]
      have decided := (ih later free.tail next leaves closes).append_text token.text
      rw [expandCalls_copy found noName still, offset, List.append_cons, shape]
      exact decided

/-- A query without calls is kept, or it is refused for its first fault. -/
theorem expandQuery_of_callFree (maxDepth : Nat) (scanned : Scanned query tokens rest)
    (free : CallFree catalog tokens) :
    Decided query rest tokens query (expandQuery catalog maxDepth query) := by
  have whole : query = source [] ++ query := rfl
  have leaves : LeavesOpen [] [] := .nothing .nil
  exact expandCalls_of_callFree scanned free whole leaves Balanced.nil.closesOpened

/-- Which queries without calls are translated, to what, and where the others are refused. -/
theorem translate_of_callFree (catalog : Catalog) (placeholders : Placeholder.Registry)
    (maxDepth : Nat) (now : DateTime) (query : String) :
    ∃ tokens rest, Scanned query.toList tokens rest ∧
      (∀ other rest', Scanned query.toList other rest' → other = tokens ∧ rest' = rest) ∧
      (CallFree catalog tokens →
        (∀ sql after, translate catalog placeholders maxDepth now query = (.ok sql, after) ↔
          (rest = [] ∧ Balanced tokens) ∧ (sql, after) = placeholders.substitute now query) ∧
        ∀ e after, translate catalog placeholders maxDepth now query = (.error e, after) ↔
          (∃ front fault, FirstFault rest tokens front fault ∧
            e = (restBehind query.toList front).malformed fault) ∧ after = placeholders) := by
  have scanned := scanned_lex query.toList
  refine ⟨_, _, scanned, fun _ _ => scanned.unique, fun free => ?_⟩
  rcases expandQuery_of_callFree maxDepth scanned free with
    ⟨done, balanced, kept⟩ | ⟨front, fault, first, fails⟩
  · refine ⟨fun sql after => ?_, fun e after => ?_⟩
    · rw [translate_of_ok kept, Placeholder.Registry.substitute]
      simp only [Prod.mk.injEq, Except.ok.injEq, done, balanced, true_and, eq_comm]
    · simp only [translate_of_ok kept, Prod.mk.injEq, reduceCtorEq, false_and, false_iff]
      rintro ⟨⟨_, _, first, _⟩, _⟩
      exact first.not_accepted ⟨done, balanced⟩
  · rw [translate_of_error fails]
    refine ⟨fun sql after => ?_, fun e after => ?_⟩
    · simp only [Prod.mk.injEq, reduceCtorEq, first.not_accepted, false_and]
    · constructor
      · rintro ⟨⟩
        exact ⟨⟨front, fault, first, rfl⟩, rfl⟩
      · rintro ⟨⟨front', fault', first', rfl⟩, rfl⟩
        obtain ⟨rfl, rfl⟩ := first.unique first'
        rfl

/-- The parenthesis in the span and the one in the comment close nothing. -/
theorem translate_unclosed_of_hidden :
    CallFree (Catalog.empty.insert ⟨"f", 1, "[<p1>]", none⟩)
        [.word ['f'], .symbol ' ', .opening, .quoted ['\'', ')', '\''], .comment ['-', '-', ')']] ∧
      translate (Catalog.empty.insert ⟨"f", 1, "[<p1>]", none⟩) .empty 8
        ⟨⟨2000, 1, 1, by decide⟩, ⟨0, 0, 0, 0, by decide⟩⟩ "f (')'--)" =
          (.error (.malformed .unclosedParenthesis 2 "(')'--)"), .empty) := by
  have free : CallFree (Catalog.empty.insert ⟨"f", 1, "[<p1>]", none⟩)
      [.word ['f'], .symbol ' ', .opening, .quoted ['\'', ')', '\''], .comment ['-', '-', ')']] := by
    intro letters pair
    simp [List.infix_cons_iff, Token.opening] at pair
  refine ⟨free, ?_⟩
  obtain ⟨tokens, rest, scanned, _, outcome⟩ :=
    translate_of_callFree (Catalog.empty.insert ⟨"f", 1, "[<p1>]", none⟩) .empty 8
      ⟨⟨2000, 1, 1, by decide⟩, ⟨0, 0, 0, 0, by decide⟩⟩ "f (')'--)"
  have found : lex "f (')'--)".toList = ([.word ['f'], .symbol ' ', .opening,
      .quoted ['\'', ')', '\''], .comment ['-', '-', ')']], []) := by
    decide +kernel
  obtain ⟨rfl, rfl⟩ := Prod.mk.inj (scanned.lex_eq.symm.trans found)
  refine ((outcome free).2 _ _).2 ⟨⟨[.word ['f'], .symbol ' '], .unclosedParenthesis, ?_, rfl⟩, rfl⟩
  have hidden : Balanced [.quoted ['\'', ')', '\''], .comment ['-', '-', ')']] :=
    .other nofun nofun (.other nofun nofun .nil)
  refine .opening rfl ?_ rfl hidden.not_isClosed hidden.opensClosed
  intro front behind shape
  have closing : Token.closing ∈ front ++ .closing :: behind := by simp
  rw [← shape] at closing
  simp [Token.opening, Token.closing] at closing

end PortableSql.Query
