import PortableSql.Proofs.Query.Expansion
import PortableSql.Query.Translate

/-!
# The meaning of queries

Main statement: where nothing but the length of a query bounds the nesting of its calls, and no
placeholder is registered, translating the query gives the value of its call tree, and fails exactly
if there is no tree whose calls all have overloads and no blank arguments (`translate_eq_ok_iff`).
-/
namespace PortableSql.Query

open Calendar Placeholder Text

variable {catalog : Catalog}

/-! ## Nesting -/

theorem trim_length_le (text : List Char) : (trim text).length ≤ text.length :=
  Nat.le_trans (dropEndWhile_length_le isBlank _) (dropWhile_length_le isBlank text)

theorem argumentText_length_le (piece : List Token) :
    (argumentText piece).length ≤ (source piece).length + 1 := by
  have trimmed := trim_length_le (source piece)
  unfold argumentText
  split
  · rw [List.length_append]
    exact Nat.succ_le_succ trimmed
  · omega

theorem source_intercalate_length (first : List Token) (later : List (List Token)) :
    (source first).length + (source (List.intercalate [.comma] later)).length ≤
      (source (List.intercalate [.comma] (first :: later))).length := by
  cases later with
  | nil => simp [List.intercalate]
  | cons second later =>
    rw [intercalate_cons [.comma] second later, intercalate_cons]
    simp

mutual

/-- Every call takes two characters for its parentheses, so a text nests no deeper than it is long. -/
private theorem nestingOf_le_length : ∀ {tokens : List Token} {parts : List Part},
    Derives catalog tokens parts → nestingOf parts ≤ (source tokens).length
  | _, _, .nil => Nat.le_refl 0
  | _, _, .copy _ _ _ later => by
    have later := nestingOf_le_length later
    simp [nestingOf, Part.nesting]
    omega
  | _, _, .group within later => by
    have within := nestingOf_le_length within
    have later := nestingOf_le_length later
    simp [nestingOf, Part.nesting]
    omega
  | _, _, .emptyCall _ _ later => by
    have later := nestingOf_le_length later
    simp [nestingOf, Part.nesting, nestingOfEach]
    omega
  | _, _, .call _ _ _ each later => by
    have each := nestingOfEach_le_length each
    have later := nestingOf_le_length later
    simp [nestingOf, Part.nesting, Token.text]
    omega

private theorem nestingOfEach_le_length : ∀ {pieces : List (List Token)}
    {arguments : List (List Part)}, DerivesEach catalog pieces arguments →
      nestingOfEach arguments ≤ (source (List.intercalate [.comma] pieces)).length + 2
  | _, _, .nil => Nat.zero_le _
  | piece :: pieces, _, .cons reads argument later => by
    have argument := nestingOf_le_length argument
    have later := nestingOfEach_le_length later
    have whole := congrArg List.length reads.lossless
    have short := argumentText_length_le piece
    have apart := source_intercalate_length piece pieces
    simp at whole
    simp [nestingOfEach]
    omega

end

/-! ## Placeholders -/

theorem readToken?_empty (now : DateTime) (text : List Char) :
    Registry.empty.readToken? now text = none := by
  unfold Registry.readToken?
  split
  · rfl
  · rfl

/-- Where no placeholder is registered, the text stays. -/
theorem substituteText_empty (now : DateTime) (text : List Char) :
    Registry.empty.substituteText now text = (text, .empty) := by
  induction length : text.length using Nat.strong_induction_on generalizing text with
  | _ n ih =>
    cases text with
    | nil => rw [Registry.substituteText]
    | cons c cs =>
      rw [Registry.substituteText]
      split
      · rfl
      · rename_i token rest found
        have shorter := nextToken?_length found
        have later := ih rest.length (by simp at length; omega) rest rfl
        split
        · rename_i read
          rw [readToken?_empty] at read
          split at read <;> cases read
        · rw [later, ← nextToken?_append found]

/-- Where no placeholder is registered, translating a query is expanding its calls. -/
theorem translate_empty_eq_ok_iff {maxDepth : Nat} {now : DateTime} {query sql : String}
    {placeholders : Registry} :
    translate catalog .empty maxDepth now query = (.ok sql, placeholders) ↔
      placeholders = .empty ∧ expandQuery catalog maxDepth query.toList = .ok sql.toList := by
  simp only [translate_ok_iff, substituteText_empty, Prod.mk.injEq]
  constructor
  · rintro ⟨text, expands, rfl, rfl⟩
    exact ⟨rfl, expands⟩
  · rintro ⟨rfl, expands⟩
    exact ⟨_, expands, rfl, rfl⟩

/-- Translating a query is evaluating its call tree. -/
theorem translate_eq_ok_iff {maxDepth : Nat} {now : DateTime} {query sql : String}
    {placeholders : Registry} (deep : query.length ≤ maxDepth) :
    translate catalog .empty maxDepth now query = (.ok sql, placeholders) ↔
      placeholders = .empty ∧ ∃ tokens parts, Reads query.toList tokens [] ∧
        Derives catalog tokens parts ∧ PartsResolve catalog parts ∧
        evaluateParts catalog parts = sql.toList := by
  rw [translate_empty_eq_ok_iff, expandQuery, expandFragment_eq_ok_iff]
  apply and_congr_right
  intro _
  constructor
  · rintro ⟨tokens, reads, parts, derives, resolves, _, value⟩
    exact ⟨tokens, parts, reads, derives, resolves, value⟩
  · rintro ⟨tokens, parts, reads, derives, resolves, value⟩
    have whole := congrArg List.length reads.lossless
    have shallow := nestingOf_le_length derives
    rw [List.append_nil, String.length_toList] at whole
    exact ⟨tokens, reads, parts, derives, resolves, by omega, value⟩

/-- The comma in the span is part of the one argument, and the blank behind the span is not. -/
theorem translate_call_of_span :
    "f('a,' )".length ≤ 8 ∧
      translate (Catalog.empty.insert ⟨"f", 1, "[<p1>]", none⟩) .empty 8
        ⟨⟨2000, 1, 1, by decide⟩, ⟨0, 0, 0, 0, by decide⟩⟩ "f('a,' )" = (.ok "['a,']", .empty) := by
  refine ⟨by decide, (translate_eq_ok_iff (by decide)).2 ⟨rfl, ?_⟩⟩
  let span : Token := .quoted ['\'', 'a', ',', '\'']
  let piece : List Token := [span, .symbol ' ']
  refine ⟨.word ['f'] :: .opening :: (List.intercalate [.comma] [piece] ++ .closing :: []),
    [.call (String.ofList ['f']) [[.copy span]]], ?_, ?_, ?_, ?_⟩
  · show Reads ['f', '(', '\'', 'a', ',', '\'', ' ', ')'] _ _
    exact .of_nextToken? (by rfl) <| .of_nextToken? (by rfl) <| .of_nextToken? (by rfl) <|
      .of_nextToken? (by rfl) <| .of_nextToken? (by rfl) <| .nil []
  · have list : IsList [piece] := by
      refine ⟨by simp, fun other member => ?_⟩
      rw [List.mem_singleton.1 member]
      exact .other nofun nofun nofun (.other (by decide) (by decide) (by decide) .nil)
    have reads : Reads (argumentText piece) [span] [] := by
      show Reads ['\'', 'a', ',', '\''] [span] []
      exact .of_nextToken? (by decide) (.nil [])
    have argument : Derives (Catalog.empty.insert ⟨"f", 1, "[<p1>]", none⟩) [span] [.copy span] :=
      .copy nofun nofun nofun .nil
    exact .call (by decide) list ⟨span, by decide, rfl⟩ (.cons reads argument .nil) .nil
  · exact ⟨⟨by decide, by simp, ⟨trivial, trivial⟩, trivial⟩, trivial⟩
  · decide +kernel

end PortableSql.Query
