import PortableSql.Proofs.Query.ArgumentTokens

/-!
# Integer expressions in queries

The grammar of integer arithmetic as engines read it: literals, parentheses, and binary operators that
associate to the left, those of products more tightly than those of sums. A text denotes at most one
expression (`Denotes.unique`): reading its tokens from left to right, with one frame for each parenthesis
that is open, finds the expression.
-/
namespace PortableSql.Arithmetic

open Query Text

inductive SumOperator
  | plus | minus
  deriving DecidableEq, Repr

inductive ProductOperator
  | times | remainder
  deriving DecidableEq, Repr

/-- An expression as it is grouped. -/
inductive Expression
  | literal (number : Nat)
  /-- What stands in parentheses. -/
  | group (inner : Expression)
  | product (operator : ProductOperator) (left right : Expression)
  | sum (operator : SumOperator) (left right : Expression)
  deriving DecidableEq, Repr

namespace SumOperator

def result : SumOperator → Int → Int → Int
  | plus, x, y => x + y
  | minus, x, y => x - y

def token : SumOperator → Token
  | plus => .symbol '+'
  | minus => .symbol '-'

end SumOperator

namespace ProductOperator

/-- The result of an operator. A remainder has the sign of the dividend, and there is none by zero. -/
def result? : ProductOperator → Int → Int → Option Int
  | times, x, y => some (x * y)
  | remainder, x, y => if y = 0 then none else some (x.tmod y)

def token : ProductOperator → Token
  | times => .symbol '*'
  | remainder => .symbol '%'

end ProductOperator

/-- The value of an expression. There is none where a divisor in it is zero. -/
def Expression.value? : Expression → Option Int
  | literal number => some number
  | group inner => inner.value?
  | product operator left right => do operator.result? (← left.value?) (← right.value?)
  | sum operator left right => do pure (operator.result (← left.value?) (← right.value?))

mutual

/-- Tokens that may stand on either side of any operator. -/
inductive IsOperand : List Token → Expression → Prop
  | literal {digits : List Char} (all : digits.all isDigit = true) :
      IsOperand [.number digits] (.literal (decimalValue digits))
  | group {inner : List Token} {e : Expression} (inside : IsSum inner e) :
      IsOperand (.opening :: (inner ++ [.closing])) (.group e)

inductive IsProduct : List Token → Expression → Prop
  | operand {tokens : List Token} {e : Expression} (single : IsOperand tokens e) :
      IsProduct tokens e
  | operator {front back : List Token} {a b : Expression} (operator : ProductOperator)
      (left : IsProduct front a) (right : IsOperand back b) :
      IsProduct (front ++ operator.token :: back) (.product operator a b)

inductive IsSum : List Token → Expression → Prop
  | product {tokens : List Token} {e : Expression} (single : IsProduct tokens e) :
      IsSum tokens e
  | operator {front back : List Token} {a b : Expression} (operator : SumOperator)
      (left : IsSum front a) (right : IsProduct back b) :
      IsSum (front ++ operator.token :: back) (.sum operator a b)

end

/-- The tokens that are not blank. -/
def visibleTokens (tokens : List Token) : List Token :=
  tokens.filter fun token => !token.isBlank

/-- A text is the text of an expression; blanks between its tokens do not count. -/
def Denotes (text : List Char) (e : Expression) : Prop :=
  ∃ tokens, Reads text tokens [] ∧ IsSum (visibleTokens tokens) e

/-! ## One expression for a text -/

/-- What stands in front of an operand between the same parentheses: a sum with its operator, and a
product with its operator. -/
private structure Frame where
  sum : Option (Expression × SumOperator)
  product : Option (Expression × ProductOperator)

/-- An expression that is read up to some place. -/
private structure Reading where
  frame : Frame
  /-- The frames around the parentheses that are open. -/
  outer : List Frame
  /-- The product that ends here; there is none where an operand must follow. -/
  current : Option Expression

namespace Frame

/-- The product that an operand completes. -/
private def withOperand (frame : Frame) (e : Expression) : Expression :=
  match frame.product with
  | none => e
  | some (left, operator) => .product operator left e

/-- The sum that a product completes. -/
private def withProduct (frame : Frame) (e : Expression) : Expression :=
  match frame.sum with
  | none => e
  | some (left, operator) => .sum operator left e

end Frame

namespace Reading

private def start (outer : List Frame) : Reading :=
  ⟨⟨none, none⟩, outer, none⟩

private def step : Reading → Token → Option Reading
  | ⟨frame, outer, none⟩, .number digits =>
    some ⟨⟨frame.sum, none⟩, outer, some (frame.withOperand (.literal (decimalValue digits)))⟩
  | ⟨frame, outer, none⟩, .symbol '(' => some (start (frame :: outer))
  | ⟨frame, outer, some e⟩, .symbol ')' =>
    match outer with
    | [] => none
    | around :: outer =>
      some ⟨⟨around.sum, none⟩, outer, some (around.withOperand (.group (frame.withProduct e)))⟩
  | ⟨frame, outer, some e⟩, .symbol '*' => some ⟨⟨frame.sum, some (e, .times)⟩, outer, none⟩
  | ⟨frame, outer, some e⟩, .symbol '%' => some ⟨⟨frame.sum, some (e, .remainder)⟩, outer, none⟩
  | ⟨frame, outer, some e⟩, .symbol '+' =>
    some ⟨⟨some (frame.withProduct e, .plus), none⟩, outer, none⟩
  | ⟨frame, outer, some e⟩, .symbol '-' =>
    some ⟨⟨some (frame.withProduct e, .minus), none⟩, outer, none⟩
  | _, _ => none

private theorem step_productOperator (operator : ProductOperator) (frame : Frame)
    (outer : List Frame) (e : Expression) :
    step ⟨frame, outer, some e⟩ operator.token =
      some ⟨⟨frame.sum, some (e, operator)⟩, outer, none⟩ := by
  cases operator <;> rfl

private theorem step_sumOperator (operator : SumOperator) (frame : Frame) (outer : List Frame)
    (e : Expression) :
    step ⟨frame, outer, some e⟩ operator.token =
      some ⟨⟨some (frame.withProduct e, operator), none⟩, outer, none⟩ := by
  cases operator <;> rfl

end Reading

open Reading

mutual

private theorem IsOperand.reading {tokens : List Token} {e : Expression} (frame : Frame)
    (outer : List Frame) : IsOperand tokens e →
      tokens.foldlM step ⟨frame, outer, none⟩ =
        some ⟨⟨frame.sum, none⟩, outer, some (frame.withOperand e)⟩
  | .literal _ => rfl
  | .group inside => by
    obtain ⟨sum, last, reads, whole⟩ := inside.reading (frame :: outer)
    have opening : step ⟨frame, outer, none⟩ .opening = some (start (frame :: outer)) := rfl
    rw [List.foldlM_cons, opening, Option.bind_eq_bind, Option.bind_some, List.foldlM_append, reads,
      Option.bind_eq_bind, Option.bind_some, ← whole]
    rfl

private theorem IsProduct.reading {tokens : List Token} {e : Expression}
    (sum : Option (Expression × SumOperator)) (outer : List Frame) : IsProduct tokens e →
      tokens.foldlM step ⟨⟨sum, none⟩, outer, none⟩ = some ⟨⟨sum, none⟩, outer, some e⟩
  | .operand single => single.reading ⟨sum, none⟩ outer
  | .operator operator left right => by
    rw [List.foldlM_append, left.reading sum outer, Option.bind_eq_bind, Option.bind_some,
      List.foldlM_cons, step_productOperator, Option.bind_eq_bind, Option.bind_some]
    exact right.reading _ outer

private theorem IsSum.reading {tokens : List Token} {e : Expression} (outer : List Frame) :
    IsSum tokens e → ∃ sum last,
      tokens.foldlM step (start outer) = some ⟨⟨sum, none⟩, outer, some last⟩ ∧
        Frame.withProduct ⟨sum, none⟩ last = e
  | .product single => ⟨none, _, single.reading none outer, rfl⟩
  | .operator operator left right => by
    obtain ⟨sum, last, reads, whole⟩ := left.reading outer
    refine ⟨some (_, operator), _, ?_, rfl⟩
    rw [List.foldlM_append, reads, Option.bind_eq_bind, Option.bind_some, List.foldlM_cons,
      step_sumOperator, Option.bind_eq_bind, Option.bind_some, whole]
    exact right.reading _ outer

end

/-- Tokens are the tokens of at most one expression. -/
theorem IsSum.unique {tokens : List Token} {e e' : Expression} (isSum : IsSum tokens e)
    (isSum' : IsSum tokens e') : e = e' := by
  obtain ⟨sum, last, reads, rfl⟩ := isSum.reading []
  obtain ⟨sum', last', reads', rfl⟩ := isSum'.reading []
  rw [reads] at reads'
  cases reads'
  rfl

/-- A text denotes at most one expression. -/
theorem Denotes.unique {text : List Char} {e e' : Expression} (denotes : Denotes text e)
    (denotes' : Denotes text e') : e = e' := by
  obtain ⟨tokens, reads, isSum⟩ := denotes
  obtain ⟨tokens', reads', isSum'⟩ := denotes'
  obtain rfl := reads.unique reads'
  exact isSum.unique isSum'

/-! ## The tokens of expressions -/

/-- Whether a token occurs in expressions. -/
def isArithmetic : Token → Bool
  | .number _ => true
  | .symbol c => ['(', ')', '+', '-', '*', '%'].contains c
  | _ => false

private theorem SumOperator.isPiece_cons (operator : SumOperator) {tokens : List Token}
    (piece : IsPiece tokens) : IsPiece (operator.token :: tokens) := by
  cases operator <;> exact .other (by decide) (by decide) (by decide) piece

private theorem ProductOperator.isPiece_cons (operator : ProductOperator) {tokens : List Token}
    (piece : IsPiece tokens) : IsPiece (operator.token :: tokens) := by
  cases operator <;> exact .other (by decide) (by decide) (by decide) piece

mutual

private theorem IsOperand.isPiece {tokens : List Token} {e : Expression} :
    IsOperand tokens e → IsPiece tokens
  | .literal _ => .other nofun nofun nofun .nil
  | .group inside => .group inside.isPiece.balanced .nil

private theorem IsProduct.isPiece {tokens : List Token} {e : Expression} :
    IsProduct tokens e → IsPiece tokens
  | .operand single => single.isPiece
  | .operator operator left right => left.isPiece.append (operator.isPiece_cons right.isPiece)

/-- The tokens of an expression may stand in an argument list. -/
theorem IsSum.isPiece {tokens : List Token} {e : Expression} : IsSum tokens e → IsPiece tokens
  | .product single => single.isPiece
  | .operator operator left right => left.isPiece.append (operator.isPiece_cons right.isPiece)

end

mutual

private theorem IsOperand.isArithmetic {tokens : List Token} {e : Expression} :
    IsOperand tokens e → ∀ token ∈ tokens, isArithmetic token = true
  | .literal _ => by simp [Arithmetic.isArithmetic]
  | .group inside => by
    have each := inside.isArithmetic
    simp only [List.forall_mem_cons, List.forall_mem_append]
    exact ⟨rfl, each, rfl, by simp⟩

private theorem IsProduct.isArithmetic {tokens : List Token} {e : Expression} :
    IsProduct tokens e → ∀ token ∈ tokens, isArithmetic token = true
  | .operand single => single.isArithmetic
  | .operator operator left right => by
    rw [List.forall_mem_append, List.forall_mem_cons]
    exact ⟨left.isArithmetic, by cases operator <;> rfl, right.isArithmetic⟩

theorem IsSum.isArithmetic {tokens : List Token} {e : Expression} :
    IsSum tokens e → ∀ token ∈ tokens, isArithmetic token = true
  | .product single => single.isArithmetic
  | .operator operator left right => by
    rw [List.forall_mem_append, List.forall_mem_cons]
    exact ⟨left.isArithmetic, by cases operator <;> rfl, right.isArithmetic⟩

end

theorem IsSum.ne_nil {tokens : List Token} {e : Expression} (isSum : IsSum tokens e) :
    tokens ≠ [] := by
  cases isSum with
  | product single =>
    cases single with
    | operand single => cases single <;> nofun
    | operator => simp
  | operator => simp

/-- Only blanks stand between the tokens of an expression. -/
theorem IsSum.not_mem {tokens : List Token} {e : Expression} {token : Token}
    (isSum : IsSum (visibleTokens tokens) e) (visible : token.isBlank = false)
    (other : Arithmetic.isArithmetic token = false) : token ∉ tokens := by
  intro member
  have among : token ∈ visibleTokens tokens := List.mem_filter.2 ⟨member, by simp [visible]⟩
  rw [isSum.isArithmetic token among] at other
  cases other

theorem IsSum.isComment_eq_false {tokens : List Token} {e : Expression}
    (isSum : IsSum (visibleTokens tokens) e) : ∀ token ∈ tokens, token.isComment = false := by
  intro token member
  cases token with
  | comment => exact absurd member (isSum.not_mem rfl rfl)
  | _ => rfl

/-- An expression ends before a character that continues no token. -/
theorem IsSum.before_separator {text : List Char} {tokens : List Token} {e : Expression} {c : Char}
    (isSum : IsSum (visibleTokens tokens) e) (reads : Reads text tokens [])
    (noQuote : isQuote c = false) (noNumber : isNumberChar c = false) (noDash : c ≠ '-')
    (rest : List Char) : Reads (text ++ c :: rest) tokens (c :: rest) :=
  reads.before_separator (fun token last => isSum.isComment_eq_false token (List.mem_of_getLast? last))
    noQuote noNumber noDash rest

/-- An expression with blanks between its tokens may stand in an argument list. -/
theorem IsSum.isPiece_of_visibleTokens {tokens : List Token} {e : Expression}
    (isSum : IsSum (visibleTokens tokens) e) : IsPiece tokens := by
  refine isSum.isPiece.of_filter_eq ?_
  rw [visibleTokens, List.filter_filter]
  refine List.filter_congr fun token _ => ?_
  cases structural : token.isStructural with
  | false => rfl
  | true => rcases Token.isStructural_iff.1 structural with rfl | rfl | rfl <;> rfl

theorem IsSum.isVisible {tokens : List Token} {e : Expression}
    (isSum : IsSum (visibleTokens tokens) e) : IsVisible tokens := by
  obtain ⟨token, member⟩ := List.exists_mem_of_ne_nil _ isSum.ne_nil
  obtain ⟨among, visible⟩ := List.mem_filter.1 member
  exact ⟨token, among, by simpa using visible⟩

/-- The argument that an expression is has the tokens of the expression. -/
theorem IsSum.visibleTokens_argumentTokens {tokens : List Token} {e : Expression}
    (isSum : IsSum (visibleTokens tokens) e) :
    visibleTokens (argumentTokens tokens) = visibleTokens tokens := by
  refine filter_argumentTokens (fun token blank => by simp [blank]) fun token member => ?_
  have noComment := isSum.isComment_eq_false token member
  cases token with
  | comment => cases noComment
  | _ => rfl

end PortableSql.Arithmetic
