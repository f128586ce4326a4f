import PortableSql.Proofs.Arithmetic.Expression
import PortableSql.Proofs.Catalog.Registration
import PortableSql.Proofs.Catalog.Template
import PortableSql.Proofs.Translator.Translation

/-!
# Remainders

The template `(<p1> % <p2>)` puts its arguments next to its operator without parentheses of their own, so
the operators of the arguments compete with that of the template. Main statement: `translate_remainder`
says for all expressions how the engine groups the result, and that it is the remainder of the one by the
other exactly if the first is no sum and the second is a single operand.
-/
namespace PortableSql.Arithmetic

open Calendar Query Text

/-! ## How the result is grouped -/

namespace Expression

def isSum : Expression → Bool
  | sum .. => true
  | _ => false

/-- Whether an expression is a literal or stands in parentheses. -/
def isOperand : Expression → Bool
  | literal _ | group _ => true
  | _ => false

/-- `front % b`, where `b` is no sum: the first operand of `b` is the divisor. -/
def dividedBy (front : Expression) : Expression → Expression
  | product operator left right => product operator (front.dividedBy left) right
  | b => product .remainder front b

/-- `a % b`: the last product of `a` is divided by the first operand of `b`. -/
def regroup (a : Expression) : Expression → Expression
  | sum operator left right => sum operator (a.regroup left) right
  | b =>
    match a with
    | sum operator left right => sum operator left (right.dividedBy b)
    | a => a.dividedBy b

private theorem regroup_of_not_isSum {a b : Expression} (single : b.isSum = false) :
    a.regroup b =
      match a with
      | sum operator left right => sum operator left (right.dividedBy b)
      | a => a.dividedBy b := by
  cases b with
  | sum => cases single
  | _ => rfl

/-- The result is the remainder of the two exactly if no operator of theirs competes with it. -/
theorem regroup_eq_remainder_iff {a b : Expression} :
    a.regroup b = product .remainder a b ↔ a.isSum = false ∧ b.isOperand = true := by
  cases b with
  | sum => simp [regroup, isOperand]
  | product operator left right =>
    refine ⟨fun same => ?_, fun ⟨_, single⟩ => by cases single⟩
    rw [regroup_of_not_isSum rfl] at same
    cases a with
    | sum => cases same
    | _ =>
      -- the right side would be part of itself
      injection same with _ _ cyclic
      cases cyclic
  | literal => cases a <;> simp [regroup, dividedBy, isSum, isOperand]
  | group => cases a <;> simp [regroup, dividedBy, isSum, isOperand]

end Expression

open Expression

private theorem IsProduct.isSum_eq_false {tokens : List Token} {e : Expression}
    (isProduct : IsProduct tokens e) : e.isSum = false := by
  cases isProduct with
  | operand single => cases single <;> rfl
  | operator => rfl

private theorem IsProduct.dividedBy {front back : List Token} {a b : Expression}
    (first : IsProduct front a) (second : IsProduct back b) :
    IsProduct (front ++ ProductOperator.remainder.token :: back) (a.dividedBy b) := by
  cases second with
  | operand single =>
    have whole : IsProduct _ (.product .remainder a b) := .operator .remainder first single
    cases single <;> exact whole
  | operator middle left right =>
    have whole := IsProduct.operator middle (first.dividedBy left) right
    rw [List.append_assoc, List.cons_append] at whole
    exact whole

/-- Tokens of two expressions with the operator between them are the tokens of their regrouping. -/
theorem IsSum.regroup {front back : List Token} {a b : Expression} (first : IsSum front a) :
    IsSum back b → IsSum (front ++ ProductOperator.remainder.token :: back) (a.regroup b)
  | .operator middle left right => by
    have whole := IsSum.operator middle (first.regroup left) right
    rw [List.append_assoc, List.cons_append] at whole
    exact whole
  | .product second => by
    rw [regroup_of_not_isSum second.isSum_eq_false]
    cases first with
    | product single =>
      have whole := single.dividedBy second
      have plain := single.isSum_eq_false
      cases a with
      | sum => cases plain
      | _ => exact .product whole
    | operator middle left right =>
      rw [List.append_assoc, List.cons_append]
      exact .operator middle left (right.dividedBy second)

/-! ## The call and its result -/

/-- The text of the template with two arguments in it. -/
private theorem expandText_remainder (first second : List Char) :
    Catalog.expandText [first, second] "(<p1> % <p2>)".toList =
      '(' :: (first ++ ' ' :: '%' :: ' ' :: (second ++ [')'])) := by
  have one : Catalog.parameter? [first, second].length ['1', '>', ' ', '%', ' ', '<', 'p', '2', '>', ')'] =
      some (0, [' ', '%', ' ', '<', 'p', '2', '>', ')']) := by rfl
  have two : Catalog.parameter? [first, second].length ['2', '>', ')'] = some (1, [')']) := by rfl
  show Catalog.expandText [first, second]
    ['(', '<', 'p', '1', '>', ' ', '%', ' ', '<', 'p', '2', '>', ')'] = _
  rw [Catalog.expandText_cons (by decide), Catalog.expandText_of_some one,
    Catalog.expandText_cons (by decide), Catalog.expandText_cons (by decide),
    Catalog.expandText_cons (by decide), Catalog.expandText_of_some two,
    Catalog.expandText_cons (by decide), Catalog.expandText_nil]
  rfl

/-- The call as it is read. -/
private theorem reads_call {dividend divisor : List Char} {front back : List Token} {a b : Expression}
    (readsFront : Reads dividend front []) (first : IsSum (visibleTokens front) a)
    (readsBack : Reads divisor back []) (second : IsSum (visibleTokens back) b) :
    Reads ("AFMod".toList ++ '(' :: (dividend ++ ',' :: ' ' :: (divisor ++ [')'])))
      (.word "AFMod".toList :: .opening ::
        (List.intercalate [.comma] [front, .symbol ' ' :: back] ++ [.closing])) [] := by
  have readsSecond := second.before_separator (c := ')') readsBack rfl rfl (by decide) []
  have readsFirst := first.before_separator (c := ',') readsFront rfl rfl (by decide)
    (' ' :: (divisor ++ [')']))
  have name : (Token.word "AFMod".toList).StandsBefore (some '(') :=
    Token.word_standsBefore rfl rfl rfl
  have blank : (Token.symbol ' ').StandsBefore (divisor ++ [')']).head? :=
    .symbol rfl rfl rfl fun dash => absurd dash (by decide)
  have closing : Reads [')'] [.closing] [] := .of_nextToken? (by rfl) (.nil [])
  have behind : Reads (',' :: ' ' :: (divisor ++ [')'])) (.comma :: .symbol ' ' :: (back ++ [.closing])) [] :=
    .cons (Token.comma_standsBefore _) (.cons blank (readsSecond.append closing))
  have whole : Reads ("AFMod".toList ++ '(' :: (dividend ++ ',' :: ' ' :: (divisor ++ [')'])))
      (.word "AFMod".toList :: .opening :: (front ++ .comma :: .symbol ' ' :: (back ++ [.closing]))) [] :=
    Reads.cons_iff.2
      ⟨_, rfl, name, .cons (Token.opening_standsBefore _) (readsFirst.append behind)⟩
  simpa [List.intercalate] using whole

/-- The argument that an expression is denotes the expression. -/
private theorem denotes_argumentText {piece : List Token} {e : Expression}
    (delimited : Delimited piece) (isSum : IsSum (visibleTokens piece) e) :
    Denotes (argumentText piece) e := by
  refine ⟨_, reads_argumentText delimited, ?_⟩
  rw [isSum.visibleTokens_argumentTokens]
  exact isSum

private theorem callFree_argumentTokens {catalog : Catalog} {piece : List Token} {e : Expression}
    (isSum : IsSum (visibleTokens piece) e) : CallFree catalog (argumentTokens piece) := by
  rw [← isSum.visibleTokens_argumentTokens] at isSum
  exact .of_no_word fun letters => isSum.not_mem rfl rfl

/-- The template with two expressions in it denotes their regrouping. -/
private theorem denotes_result {dividend divisor : List Char} {a b : Expression}
    (first : Denotes dividend a) (second : Denotes divisor b) :
    Denotes ('(' :: (dividend ++ ' ' :: '%' :: ' ' :: (divisor ++ [')']))) (.group (a.regroup b)) := by
  obtain ⟨front, readsFront, isFirst⟩ := first
  obtain ⟨back, readsBack, isSecond⟩ := second
  have readsFirst := isFirst.before_separator (c := ' ') readsFront rfl rfl (by decide)
    ('%' :: ' ' :: (divisor ++ [')']))
  have readsSecond := isSecond.before_separator (c := ')') readsBack rfl rfl (by decide) []
  have symbol : ∀ c next, c = ' ' ∨ c = '%' → (Token.symbol c).StandsBefore next := by
    rintro c next (rfl | rfl) <;> exact .symbol rfl rfl rfl fun dash => absurd dash (by decide)
  have closing : Reads [')'] [.closing] [] := .of_nextToken? (by rfl) (.nil [])
  have reads : Reads ('(' :: (dividend ++ ' ' :: '%' :: ' ' :: (divisor ++ [')'])))
      (.opening :: (front ++ .symbol ' ' :: .symbol '%' :: .symbol ' ' :: (back ++ [.closing]))) [] :=
    .cons (Token.opening_standsBefore _) <| readsFirst.append <|
      .cons (symbol ' ' _ (.inl rfl)) <| .cons (symbol '%' _ (.inr rfl)) <|
      .cons (symbol ' ' _ (.inl rfl)) <| readsSecond.append closing
  have shape : visibleTokens
      (.opening :: (front ++ .symbol ' ' :: .symbol '%' :: .symbol ' ' :: (back ++ [.closing]))) =
      .opening :: (visibleTokens front ++ ProductOperator.remainder.token :: visibleTokens back ++
        [.closing]) := by
    simp [visibleTokens, Token.isBlank, isBlank, ProductOperator.token]
  refine ⟨_, reads, ?_⟩
  rw [shape]
  exact .product (.operand (.group (isFirst.regroup isSecond)))

/-- The function of an engine that writes the call with an operator. -/
private def remainderFunction : PortableFunction :=
  .builtin "AFMod" 2 "(<p1> % <p2>)" "Remainder of a division"

private theorem resolve_remainder {dialect : Dialect}
    (engine : dialect = .sqlite ∨ dialect = .sqlServer) :
    dialect.catalog.resolve (String.ofList "AFMod".toList) 2 = some remainderFunction := by
  rw [Dialect.resolve_catalog]
  have own : Catalog.lastNamed dialect.profile.functions (String.ofList "AFMod".toList) 2 =
      some remainderFunction := by
    rcases engine with rfl | rfl <;> decide +kernel
  rw [own]
  rfl

private theorem translate_call {dialect : Dialect} {options : Options} {now : DateTime}
    {dividend divisor : String} {front back : List Token} {a b : Expression}
    (engine : dialect = .sqlite ∨ dialect = .sqlServer) (deep : 0 < options.maxDepth)
    (readsFront : Reads dividend.toList front []) (first : IsSum (visibleTokens front) a)
    (readsBack : Reads divisor.toList back []) (second : IsSum (visibleTokens back) b) :
    let result := '(' :: (argumentText front ++
      ' ' :: '%' :: ' ' :: (argumentText (.symbol ' ' :: back) ++ [')']))
    (Translator.new dialect options now).translate
        ("AFMod(" ++ dividend ++ ", " ++ divisor ++ ")") =
      (.ok (String.ofList result), Translator.new dialect options now) ∧
      Denotes result (.group (a.regroup b)) := by
  intro result
  let pieces : List (List Token) := [front, .symbol ' ' :: back]
  -- the blank in front of the second expression is not part of it
  have secondPiece : IsSum (visibleTokens (.symbol ' ' :: back)) b := second
  have isList : IsList pieces := by
    refine ⟨by simp [pieces], List.forall_mem_cons.2 ⟨first.isPiece_of_visibleTokens, ?_⟩⟩
    exact List.forall_mem_singleton.2 secondPiece.isPiece_of_visibleTokens
  have visible : ∀ piece ∈ pieces, IsVisible piece :=
    List.forall_mem_cons.2 ⟨first.isVisible, List.forall_mem_singleton.2 secondPiece.isVisible⟩
  have free : ∀ piece ∈ pieces, CallFree dialect.catalog (argumentTokens piece) :=
    List.forall_mem_cons.2 ⟨callFree_argumentTokens first,
      List.forall_mem_singleton.2 (callFree_argumentTokens secondPiece)⟩
  have query : ("AFMod(" ++ dividend ++ ", " ++ divisor ++ ")").toList =
      "AFMod".toList ++ '(' :: (dividend.toList ++ ',' :: ' ' :: (divisor.toList ++ [')'])) := by
    simp
  have reads := reads_call readsFront first readsBack second
  have delimited : ∀ piece ∈ pieces, Delimited piece := by
    obtain ⟨_, _, _, inner⟩ := Reads.cons_iff.1 reads
    obtain ⟨_, _, _, inner⟩ := Reads.cons_iff.1 inner
    exact delimited_of_reads inner
  obtain ⟨delimitedFirst, delimitedSecond⟩ := List.forall_mem_cons.1 delimited
  have denotes : Denotes result (.group (a.regroup b)) :=
    denotes_result (denotes_argumentText delimitedFirst first)
      (denotes_argumentText (List.forall_mem_singleton.1 delimitedSecond) secondPiece)
  have overload := resolve_remainder engine
  have expansion : remainderFunction.expandText (pieces.map argumentText) = result :=
    expandText_remainder _ _
  obtain ⟨tokens, readsResult, isResult⟩ := id denotes
  rw [← expansion] at readsResult
  rw [← query] at reads
  refine ⟨?_, denotes⟩
  rw [← expansion]
  exact Translator.translate_of_plainCall deep reads (Catalog.containsName_of_resolve overload) isList
    visible free overload readsResult (.of_not_mem (isResult.not_mem rfl rfl))

/-- A call for the remainder of two expressions is translated, and the result is one expression in
parentheses. It is the remainder of the two exactly if the first is no sum and the second is a single
operand; in that case it has the right value wherever the two have values and the divisor is not zero. -/
theorem translate_remainder {dialect : Dialect} {options : Options} {now : DateTime}
    {dividend divisor : String} {a b : Expression}
    (engine : dialect = .sqlite ∨ dialect = .sqlServer) (deep : 0 < options.maxDepth)
    (first : Denotes dividend.toList a) (second : Denotes divisor.toList b) :
    ∃ sql, (Translator.new dialect options now).translate
        ("AFMod(" ++ dividend ++ ", " ++ divisor ++ ")") =
          (.ok sql, Translator.new dialect options now) ∧
      (∀ e, Denotes sql.toList e ↔ e = .group (a.regroup b)) ∧
      (a.regroup b = .product .remainder a b ↔ a.isSum = false ∧ b.isOperand = true) ∧
      (a.isSum = false → b.isOperand = true → ∀ x y, a.value? = some x → b.value? = some y →
        y ≠ 0 → (Expression.group (a.regroup b)).value? = some (x.tmod y)) := by
  obtain ⟨front, readsFront, isFirst⟩ := first
  obtain ⟨back, readsBack, isSecond⟩ := second
  obtain ⟨translates, result⟩ := translate_call engine deep readsFront isFirst readsBack isSecond
  refine ⟨_, translates, fun e => ?_, regroup_eq_remainder_iff, fun single operand x y => ?_⟩
  · rw [String.toList_ofList]
    exact ⟨fun denotes => denotes.unique result, fun same => same ▸ result⟩
  · intro valueFirst valueSecond nonzero
    rw [regroup_eq_remainder_iff.2 ⟨single, operand⟩, Expression.value?, Expression.value?,
      valueFirst, valueSecond]
    exact if_neg nonzero

/-- A product in front of the operator and parentheses behind it are one operand each. -/
theorem translate_remainder_of_product :
    let now : DateTime := ⟨⟨2000, 1, 1, by decide⟩, ⟨0, 0, 0, 0, by decide⟩⟩
    let options := Options.defaults .sqlite
    let a : Expression := .product .times (.literal 2) (.literal 7)
    let b : Expression := .group (.sum .plus (.literal 1) (.literal 3))
    Denotes "2*7".toList a ∧ Denotes "(1+3)".toList b ∧ 0 < options.maxDepth ∧
      ∃ sql, (Translator.new .sqlite options now).translate ("AFMod(" ++ "2*7" ++ ", " ++ "(1+3)" ++ ")") =
          (.ok sql, Translator.new .sqlite options now) ∧
        (∀ e, Denotes sql.toList e ↔ e = .group (a.regroup b)) ∧
        (Expression.group (a.regroup b)).value? = some 2 := by
  intro now options a b
  have first : Denotes "2*7".toList a := by
    refine ⟨[.number ['2'], .symbol '*', .number ['7']], ?_, ?_⟩
    · exact .of_nextToken? (by rfl) <| .of_nextToken? (by rfl) <| .of_nextToken? (by rfl) <| .nil []
    · exact .product (.operator .times (.operand (.literal rfl)) (.literal rfl))
  have second : Denotes "(1+3)".toList b := by
    refine ⟨[.opening, .number ['1'], .symbol '+', .number ['3'], .closing], ?_, ?_⟩
    · exact .of_nextToken? (by rfl) <| .of_nextToken? (by rfl) <| .of_nextToken? (by rfl) <|
        .of_nextToken? (by rfl) <| .of_nextToken? (by rfl) <| .nil []
    · exact .product (.operand (.group (.operator .plus
        (.product (.operand (.literal rfl))) (.operand (.literal rfl)))))
  obtain ⟨sql, translates, denotes, _, value⟩ :=
    @translate_remainder .sqlite options now _ _ _ _ (.inl rfl) (by decide) first second
  exact ⟨first, second, by decide, sql, translates, denotes, value rfl rfl 14 4 rfl rfl (by decide)⟩

/-- A sum loses its last term to the operator: the remainder of six by three is not zero but three. -/
theorem last_term_of_sum_divided :
    let now : DateTime := ⟨⟨2000, 1, 1, by decide⟩, ⟨0, 0, 0, 0, by decide⟩⟩
    let six : Expression := .sum .plus (.literal 1) (.literal 5)
    let read : Expression :=
      .group (.sum .plus (.literal 1) (.product .remainder (.literal 5) (.literal 3)))
    Denotes "1 + 5".toList six ∧ six.value? = some 6 ∧ Denotes "3".toList (.literal 3) ∧
      (∀ dialect, dialect = Dialect.sqlite ∨ dialect = .sqlServer →
        PortableSql.translate dialect now "AFMod(1 + 5, 3)" = .ok "(1 + 5 % 3)") ∧
      Denotes "(1 + 5 % 3)".toList read ∧ read.value? = some 3 ∧ (6 : Int).tmod 3 = 0 := by
  intro now six read
  let front : List Token := [.number ['1'], .symbol ' ', .symbol '+', .symbol ' ', .number ['5']]
  have readsFirst : Reads "1 + 5".toList front [] :=
    .of_nextToken? (by rfl) <| .of_nextToken? (by rfl) <| .of_nextToken? (by rfl) <|
      .of_nextToken? (by rfl) <| .of_nextToken? (by rfl) <| .nil []
  have readsSecond : Reads "3".toList [.number ['3']] [] := .of_nextToken? (by rfl) (.nil [])
  have first : IsSum (visibleTokens front) six :=
    .operator .plus (.product (.operand (.literal rfl))) (.operand (.literal rfl))
  have second : IsSum (visibleTokens [.number ['3']]) (.literal 3) :=
    .product (.operand (.literal rfl))
  refine ⟨⟨_, readsFirst, first⟩, rfl, ⟨_, readsSecond, second⟩, fun dialect engine => ?_,
    denotes_result ⟨_, readsFirst, first⟩ ⟨_, readsSecond, second⟩, rfl, rfl⟩
  have translates := (@translate_call dialect (Options.defaults dialect) now _ _ _ _ _ _ engine
    (Nat.succ_pos 63) readsFirst first readsSecond second).1
  exact congrArg Prod.fst translates

end PortableSql.Arithmetic
