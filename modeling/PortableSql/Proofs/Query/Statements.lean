import PortableSql.Proofs.Query.Semantics
import PortableSql.Proofs.Query.Trimming

/-!
# Statements

Main statement: two queries that are each translated are translated one behind the other, with a newline
between them, to their translations (`translate_statements`). No token reaches across the newline: every
token may end before it, even a comment. So the trees of the two queries stand side by side, and neither
the overloads nor the nesting of their calls change.
-/
namespace PortableSql.Query

open Calendar Text

variable {catalog : Catalog}

/-! ## Tokens before a newline -/

theorem Reads.before_newline {text : List Char} {tokens : List Token} (reads : Reads text tokens [])
    (behind : List Char) : Reads (text ++ '\n' :: behind) tokens ('\n' :: behind) := by
  rw [← reads.source_eq]
  exact reads.replace_rest fun token last => (reads.last_standsBefore token last).before_newline

theorem Reads.newline {text : List Char} {tokens : List Token} (reads : Reads text tokens []) :
    Reads ('\n' :: text) (.symbol '\n' :: tokens) [] :=
  .of_nextToken? (by rfl) reads

/-- The tokens of two statements. -/
theorem Reads.statements {front back : List Char} {tokens later : List Token}
    (reads : Reads front tokens []) (readsLater : Reads back later []) :
    Reads (front ++ '\n' :: back) (tokens ++ .symbol '\n' :: later) [] :=
  (reads.before_newline back).append readsLater.newline

/-! ## Trees side by side -/

/-- No call is opened at the seam of two lists of tokens unless the second one begins with a
parenthesis. -/
theorem opensCall_append {token : Token} {tokens behind : List Token}
    (noOpening : behind.head? ≠ some .opening) :
    OpensCall catalog token (tokens ++ behind) → OpensCall catalog token tokens := by
  rintro ⟨letters, rfl, next, known⟩
  cases tokens with
  | nil => exact absurd next noOpening
  | cons first tokens => exact ⟨letters, rfl, next, known⟩

theorem Derives.append {tokens behind : List Token} {parts after : List Part}
    (derives : Derives catalog tokens parts) (derivesBehind : Derives catalog behind after)
    (noOpening : behind.head? ≠ some .opening) :
    Derives catalog (tokens ++ behind) (parts ++ after) := by
  cases derives with
  | nil => exact derivesBehind
  | copy notOpening notClosing noCall later =>
    exact .copy notOpening notClosing (fun call => noCall (opensCall_append noOpening call))
      (later.append derivesBehind noOpening)
  | group within later =>
    have group := Derives.group within (later.append derivesBehind noOpening)
    simpa using group
  | emptyCall known blank later =>
    have call := Derives.emptyCall known blank (later.append derivesBehind noOpening)
    simpa using call
  | call known list visible each later =>
    have call := Derives.call known list visible each (later.append derivesBehind noOpening)
    simpa using call

theorem evaluateParts_append (parts after : List Part) :
    evaluateParts catalog (parts ++ after) =
      evaluateParts catalog parts ++ evaluateParts catalog after := by
  induction parts with
  | nil => rfl
  | cons part parts ih => rw [List.cons_append, evaluateParts, evaluateParts, ih, List.append_assoc]

theorem partsResolve_append {parts after : List Part} :
    PartsResolve catalog (parts ++ after) ↔
      PartsResolve catalog parts ∧ PartsResolve catalog after := by
  induction parts with
  | nil => simp [PartsResolve]
  | cons part parts ih => rw [List.cons_append, PartsResolve, PartsResolve, ih, and_assoc]

theorem nestingOf_append (parts after : List Part) :
    nestingOf (parts ++ after) = max (nestingOf parts) (nestingOf after) := by
  induction parts with
  | nil => simp [nestingOf]
  | cons part parts ih => rw [List.cons_append, nestingOf, nestingOf, ih, Nat.max_assoc]

theorem HasTree.append {depth : Nat} {tokens behind : List Token} {sql after : List Char}
    (tree : HasTree catalog depth tokens sql) (treeBehind : HasTree catalog depth behind after)
    (noOpening : behind.head? ≠ some .opening) :
    HasTree catalog depth (tokens ++ behind) (sql ++ after) := by
  obtain ⟨parts, derives, resolves, shallow, rfl⟩ := tree
  obtain ⟨others, derivesBehind, resolvesBehind, shallowBehind, rfl⟩ := treeBehind
  refine ⟨parts ++ others, derives.append derivesBehind noOpening,
    partsResolve_append.2 ⟨resolves, resolvesBehind⟩, ?_, evaluateParts_append parts others⟩
  rw [nestingOf_append]
  exact Nat.max_lt.2 ⟨shallow, shallowBehind⟩

/-! ## Translation -/

theorem expandQuery_statements {maxDepth : Nat} {front back sql after : List Char}
    (expands : expandQuery catalog maxDepth front = .ok sql)
    (expandsBack : expandQuery catalog maxDepth back = .ok after) :
    expandQuery catalog maxDepth (front ++ '\n' :: back) = .ok (sql ++ '\n' :: after) := by
  rw [expandQuery, expandFragment_eq_ok_iff] at expands expandsBack ⊢
  obtain ⟨tokens, reads, tree⟩ := expands
  obtain ⟨later, readsLater, treeLater⟩ := expandsBack
  have newline : HasTree catalog (maxDepth + 1) (.symbol '\n' :: later) ('\n' :: after) := by
    refine treeLater.copy (by decide) (by decide) ?_
    rintro ⟨_, ⟨⟩, _⟩
  have noOpening : (Token.symbol '\n' :: later).head? ≠ some .opening := by simp [Token.opening]
  exact ⟨_, reads.statements readsLater, tree.append newline noOpening⟩

/-- Statements are translated one by one. -/
theorem translate_statements {maxDepth : Nat} {now : DateTime} {front back sql after : String}
    {placeholders placeholders' : Placeholder.Registry}
    (translated : translate catalog .empty maxDepth now front = (.ok sql, placeholders))
    (translatedBack : translate catalog .empty maxDepth now back = (.ok after, placeholders')) :
    translate catalog .empty maxDepth now (front ++ "\n" ++ back) =
      (.ok (sql ++ "\n" ++ after), .empty) := by
  have expands := (translate_empty_eq_ok_iff.1 translated).2
  have expandsBack := (translate_empty_eq_ok_iff.1 translatedBack).2
  refine translate_empty_eq_ok_iff.2 ⟨rfl, ?_⟩
  simpa using expandQuery_statements expands expandsBack

/-- The parenthesis that opens in the comment is not closed by the one in the span. -/
theorem translate_statements_of_comment :
    let catalog := Catalog.empty.insert ⟨"f", 1, "[<p1>]", none⟩
    let now : DateTime := ⟨⟨2000, 1, 1, by decide⟩, ⟨0, 0, 0, 0, by decide⟩⟩
    translate catalog .empty 1 now "f(1) -- f(" = (.ok "[1] -- f(", .empty) ∧
      translate catalog .empty 1 now "f(')')" = (.ok "[')']", .empty) ∧
      translate catalog .empty 1 now ("f(1) -- f(" ++ "\n" ++ "f(')')") =
        (.ok ("[1] -- f(" ++ "\n" ++ "[')']"), .empty) := by
  intro catalog now
  have front : translate catalog .empty 1 now "f(1) -- f(" = (.ok "[1] -- f(", .empty) :=
    translate_empty_eq_ok_iff.2 ⟨rfl, eq_ok_of_toOption (by decide +kernel)⟩
  have back : translate catalog .empty 1 now "f(')')" = (.ok "[')']", .empty) :=
    translate_empty_eq_ok_iff.2 ⟨rfl, eq_ok_of_toOption (by decide +kernel)⟩
  exact ⟨front, back, translate_statements front back⟩

end PortableSql.Query
