import PortableSql.Proofs.Query.CallFree

/-!
# A text between the parentheses of a call

What a text must be for it to be all that a call is given: a piece at whose end no comment swallows the
parenthesis behind it. Such a text is read there as it is read for itself (`Reads.enclosed`), and where the
call has no overload but that of one argument, no other balanced text has a tree (`Derives.enclosed`).
-/
namespace PortableSql.Query

variable {catalog : Catalog} {letters text : List Char} {tokens whole : List Token}

/-- A text that ends in no comment has its own tokens between the parentheses. -/
theorem Reads.enclosed (reads : Reads text tokens [])
    (noComment : ∀ token ∈ tokens.getLast?, token.isComment = false)
    (name : (Token.word letters).StandsBefore (some '(')) :
    Reads (letters ++ '(' :: (text ++ [')']))
      (.word letters :: .opening :: (tokens ++ [.closing])) [] := by
  have closing : Reads [')'] [.closing] [] := .of_nextToken? (by rfl) (.nil [])
  have inner := reads.before_separator (c := ')') noComment rfl rfl (by decide) []
  exact Reads.cons_iff.2 ⟨_, rfl, name, .cons (Token.opening_standsBefore _) (inner.append closing)⟩

/-- The parenthesis behind a comment belongs to the comment. -/
private theorem Reads.enclosed_comment {front : List Token} {line : List Char}
    (reads : Reads text (front ++ [.comment line]) [])
    (name : (Token.word letters).StandsBefore (some '(')) :
    Reads (letters ++ '(' :: (text ++ [')']))
      (.word letters :: .opening :: (front ++ [.comment (line ++ [')'])])) [] := by
  obtain ⟨_, _, stands, _⟩ := Reads.cons_iff.1 reads.of_append.2
  have whole := reads.lossless
  cases stands with
  | @comment line _ inside _ =>
    have longer : (Token.comment ('-' :: '-' :: (line ++ [')']))).StandsBefore none := by
      refine .comment (fun d member => ?_) (.inl rfl)
      rcases List.mem_append.1 member with member | member
      · exact inside d member
      · rw [List.mem_singleton.1 member]
        decide
    have same : source front ++ ((Token.comment ('-' :: '-' :: (line ++ [')']))).text ++ []) =
        text ++ [')'] := by
      rw [← whole]
      simp [Token.text]
    have inner : Reads _ (front ++ [.comment ('-' :: '-' :: (line ++ [')']))]) [] :=
      reads.replace_last (by rfl) [] longer
    rw [same] at inner
    exact Reads.cons_iff.2 ⟨_, rfl, name, .cons (Token.opening_standsBefore _) inner⟩

private theorem DerivesEach.length_eq {pieces : List (List Token)} {arguments : List (List Part)}
    (each : DerivesEach catalog pieces arguments) : arguments.length = pieces.length := by
  induction pieces generalizing arguments with
  | nil =>
    cases each
    rfl
  | cons piece pieces ih =>
    cases each with
    | cons _ _ later => rw [List.length_cons, List.length_cons, ih later]

/-- What stands behind the parenthesis that opens a call. -/
private theorem Derives.exists_list {behind : List Token} {parts : List Part}
    (derives : Derives catalog (.word letters :: .opening :: behind) parts)
    (resolves : PartsResolve catalog parts)
    (known : catalog.containsName (String.ofList letters) = true) :
    ∃ pieces rest arity f, IsList pieces ∧
      behind = List.intercalate [.comma] pieces ++ .closing :: rest ∧
      catalog.resolve (String.ofList letters) arity = some f ∧ (arity = 0 ∨ arity = pieces.length) := by
  cases derives with
  | copy _ _ noCall => exact absurd ⟨letters, rfl, rfl, known⟩ noCall
  | @emptyCall _ blanks rest _ _ blank _ =>
    obtain ⟨f, overload⟩ := Option.isSome_iff_exists.1 resolves.1.1
    refine ⟨[blanks], rest, 0, f, isList_of_blank blank, ?_, overload, .inl rfl⟩
    simp [List.intercalate]
  | @call _ pieces rest arguments _ _ list _ each _ =>
    obtain ⟨f, overload⟩ := Option.isSome_iff_exists.1 resolves.1.1
    exact ⟨pieces, rest, arguments.length, f, list, rfl, overload, .inr each.length_eq⟩

/-- A balanced text that has a tree between the parentheses of a call of one argument is that
argument. -/
theorem Derives.enclosed {parts : List Part} (reads : Reads text tokens [])
    (balanced : Balanced tokens) (name : (Token.word letters).StandsBefore (some '('))
    (known : catalog.containsName (String.ofList letters) = true)
    (single : ∀ arity f, catalog.resolve (String.ofList letters) arity = some f → arity = 1)
    (readsCall : Reads (letters ++ '(' :: (text ++ [')'])) whole [])
    (derives : Derives catalog whole parts) (resolves : PartsResolve catalog parts) :
    IsPiece tokens ∧ ∀ token ∈ tokens.getLast?, token.isComment = false := by
  by_cases noComment : ∀ token ∈ tokens.getLast?, token.isComment = false
  · obtain rfl := readsCall.unique (reads.enclosed noComment name)
    obtain ⟨pieces, rest, arity, f, list, same, overload, count⟩ :=
      derives.exists_list resolves known
    obtain ⟨rfl, _⟩ := balanced.eq_of_closing list.balanced same
    obtain rfl := single arity f overload
    obtain ⟨piece, rfl⟩ := List.length_eq_one_iff.1 (count.resolve_left (by simp)).symm
    refine ⟨?_, noComment⟩
    simpa [List.intercalate] using list.isPiece piece List.mem_cons_self
  · exfalso
    push Not at noComment
    obtain ⟨last, atEnd, comment⟩ := noComment
    obtain ⟨front, rfl⟩ := List.getLast?_eq_some_iff.1 atEnd
    cases last with
    | comment line =>
      obtain rfl := readsCall.unique (reads.enclosed_comment name)
      obtain ⟨pieces, rest, _, _, list, same, _⟩ := derives.exists_list resolves known
      -- the list is closed in front of the comment, where the text is balanced
      rcases List.eq_nil_or_concat rest with rfl | ⟨rest, token, rfl⟩
      · cases (List.append_inj' same rfl).2
      · rw [List.concat_eq_append, ← List.cons_append, ← List.append_assoc] at same
        obtain rfl := (List.append_inj' same rfl).1
        rw [List.append_assoc, List.cons_append] at balanced
        exact list.balanced.not_closing balanced
    | _ => exact comment rfl

end PortableSql.Query
