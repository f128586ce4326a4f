import PortableSql.Proofs.Catalog.Template
import PortableSql.Proofs.Query.CallFree
import PortableSql.Proofs.Query.Comments

/-!
# Comments at the end of arguments

An argument that ends in a comment keeps the newline that closes the comment, but only where the
comment itself ends in no blank: trimming cuts the blanks off, and the newline behind them with them.
Main statement: `newline_kept_iff` says for each argument when its newline is kept, and when the rest of
the template is commented out.
-/
namespace PortableSql.Query

open Text

variable {catalog : Catalog}

/-! ## The end of an argument -/

private theorem getLast?_behind {front tokens : List Token} {token : Token}
    (last : (front ++ .closing :: tokens).getLast? = some token) (notClosing : token ≠ .closing) :
    tokens.getLast? = some token := by
  cases tokens with
  | nil =>
    rw [List.getLast?_concat] at last
    exact absurd (Option.some.inj last).symm notClosing
  | cons second tokens =>
    rw [List.getLast?_append_of_ne_nil _ (by simp), List.getLast?_cons_cons] at last
    exact last

/-- A token at the end is copied to the end. -/
private theorem evaluateParts_last {tokens : List Token} {parts : List Part} {token : Token}
    (derives : Derives catalog tokens parts) (last : tokens.getLast? = some token)
    (notClosing : token ≠ .closing) : ∃ front, evaluateParts catalog parts = front ++ token.text := by
  induction length : tokens.length using Nat.strong_induction_on generalizing tokens parts with
  | _ n ih =>
    have behind : ∀ {rest : List Token} {later : List Part} (part : Part), rest.length < n →
        Derives catalog rest later → rest.getLast? = some token →
        ∃ front, evaluateParts catalog (part :: later) = front ++ token.text := by
      intro rest later part shorter derives last
      obtain ⟨front, same⟩ := ih rest.length shorter derives last rfl
      exact ⟨part.evaluate catalog ++ front, by rw [evaluateParts, same, List.append_assoc]⟩
    cases derives with
    | nil => cases last
    | @copy first tokens parts _ _ _ later =>
      cases tokens with
      | nil =>
        cases last
        cases later
        exact ⟨[], by simp [evaluateParts, Part.evaluate]⟩
      | cons second tokens =>
        rw [List.getLast?_cons_cons] at last
        exact behind (.copy first) (by simp [← length]) later last
    | @group inner tokens _ _ _ later =>
      rw [← List.cons_append] at last
      exact behind _ (by simp [← length]; omega) later (getLast?_behind last notClosing)
    | @emptyCall _ blanks tokens _ _ _ later =>
      rw [← List.cons_append, ← List.cons_append] at last
      exact behind _ (by simp [← length]; omega) later (getLast?_behind last notClosing)
    | @call _ pieces tokens _ _ _ _ _ _ later =>
      rw [← List.cons_append, ← List.cons_append] at last
      exact behind _ (by simp [← length]; omega) later (getLast?_behind last notClosing)

/-! ## Arguments without calls -/

/-- What an argument is expanded to, by its tokens. -/
private theorem exists_tree_of_argument {limit levels : Nat} {piece : List Token}
    {argument : Fragment} {value : List Char} (delimited : Delimited piece)
    (text : argument.text = argumentText piece)
    (expands : expandFragment catalog limit levels argument = .ok value) :
    ∃ parts, Derives catalog (argumentTokens piece) parts ∧ evaluateParts catalog parts = value := by
  obtain ⟨tokens, reads, parts, derives, _, _, value⟩ := expandFragment_eq_ok_iff.1 expands
  rw [text] at reads
  obtain rfl := reads.unique (reads_argumentText delimited)
  exact ⟨parts, derives, value⟩

/-- An argument that ends in a comment is expanded to a text that ends in a newline exactly if the
comment ends in no blank. -/
private theorem newline_iff {limit levels : Nat} {piece : List Token} {argument : Fragment}
    {value letters : List Char} (delimited : Delimited piece)
    (text : argument.text = argumentText piece)
    (expands : expandFragment catalog limit levels argument = .ok value)
    (last : lastToken? piece = some (.comment letters)) :
    value.getLast? = some '\n' ↔ trimEnd letters = letters := by
  obtain ⟨parts, derives, rfl⟩ := exists_tree_of_argument delimited text expands
  have ends := getLast?_argumentTokens piece
  have tight : endsInComment piece = true ↔ trimEnd letters = letters := by
    rw [endsInComment, last]
    exact decide_eq_true_iff
  split at ends
  · rename_i closed
    obtain ⟨front, same⟩ := evaluateParts_last derives ends (by decide)
    rw [same, ← tight]
    simpa [Token.text] using closed
  · rename_i hidden
    rw [last] at ends
    obtain ⟨front, same⟩ := evaluateParts_last derives ends (by simp [Token.trimmed])
    obtain ⟨_, _, reads, _⟩ := delimited
    obtain ⟨before, trail, rfl, _, _⟩ := exists_of_lastToken? last
    obtain ⟨_, _, stands, _⟩ := Reads.cons_iff.1 reads.of_append.2
    have remains : trimEnd letters ≠ [] := stands.trimEnd_text_ne_nil rfl
    rw [← tight, same]
    constructor
    · intro newline
      change (front ++ trimEnd letters).getLast? = some '\n' at newline
      rw [List.getLast?_append_of_ne_nil _ remains] at newline
      cases isBlank_getLast?_trimEnd newline
    · intro closed
      exact absurd closed hidden

/-- Text of a template behind an argument without calls is commented out exactly if the argument ends
in a comment that ends in a blank, and the text goes on in its line. -/
private theorem commented_out_iff {limit levels : Nat} {piece : List Token} {argument : Fragment}
    {value front behind : List Char} (delimited : Delimited piece)
    (text : argument.text = argumentText piece)
    (expands : expandFragment catalog limit levels argument = .ok value)
    (free : CallFree catalog (argumentTokens piece)) (plainFront : IsPlain front)
    (plainBehind : IsPlain behind) :
    (∃ place, front.length + value.length ≤ place ∧ InComment (front ++ (value ++ behind)) place) ↔
      (∃ letters, lastToken? piece = some (.comment letters) ∧ trimEnd letters ≠ letters) ∧
        behind.head? ≠ none ∧ behind.head? ≠ some '\n' := by
  obtain ⟨parts, derives, rfl⟩ := exists_tree_of_argument delimited text expands
  have reads := reads_argumentText delimited
  have copied := free.evaluateParts derives
  have whole := reads.source_eq
  rw [copied, whole, inComment_behind_iff plainFront plainBehind reads, getLast?_argumentTokens]
  apply and_congr_left
  intro _
  constructor
  · rintro ⟨letters, last⟩
    split at last
    · cases last
    · rename_i hidden
      obtain ⟨token, found, same⟩ := Option.map_eq_some_iff.1 last
      cases token with
      | comment letters =>
        refine ⟨letters, found, fun tight => hidden ?_⟩
        rw [endsInComment, found]
        simpa using tight
      | _ => cases same
  · rintro ⟨letters, found, loose⟩
    have hidden : endsInComment piece = false := by
      rw [endsInComment, found]
      simpa using loose
    rw [hidden, found]
    exact ⟨_, rfl⟩

/-- The arguments of a list that holds a visible piece, and the values that they are expanded to. -/
private theorem exists_value {limit levels : Nat} {pieces : List (List Token)} {piece : List Token}
    {arguments : List Fragment} {values : List (List Char)} {place : Nat}
    (holdsTexts : HoldsTexts pieces (arguments.map Fragment.text))
    (expands : arguments.mapM (expandFragment catalog limit levels) = .ok values)
    (found : pieces[place]? = some piece) :
    (¬ IsVisible piece ∧ values[place]? = none) ∨
      ∃ argument value, argument.text = argumentText piece ∧ values[place]? = some value ∧
        expandFragment catalog limit levels argument = .ok value := by
  generalize same : arguments.map Fragment.text = texts at holdsTexts
  cases holdsTexts with
  | none blank =>
    rw [List.map_eq_nil_iff] at same
    subst same
    cases expands
    refine .inl ⟨?_, rfl⟩
    rintro ⟨token, member, visible⟩
    exact blank ⟨token, mem_intercalate_of_mem (List.mem_of_getElem? found) member, visible⟩
  | each =>
    have held : (arguments.map Fragment.text)[place]? = some (argumentText piece) := by
      rw [same, List.getElem?_map, found]
      rfl
    rw [List.getElem?_map] at held
    obtain ⟨argument, given, text⟩ := Option.map_eq_some_iff.1 held
    obtain ⟨value, result, expanded⟩ := exists_getElem?_of_forall₂ (mapM_eq_ok_iff.1 expands) given
    exact .inr ⟨argument, value, text, result, expanded⟩

/-- A comment at the end of an argument is closed in it exactly if it ends in no blank. Where it is
not, and the argument holds no call, the rest of the line behind the parameter of a template is
commented out; in all other cases nothing of it is. -/
theorem newline_kept_iff {limit levels : Nat} {name : String} {opening : Fragment} {offset : Nat}
    {text rest : List Char} {list : ArgumentList} {pieces : List (List Token)} {piece : List Token}
    {values : List (List Char)} {place : Nat} (isList : IsList pieces)
    (reads : Reads text (List.intercalate [.comma] pieces ++ [.closing]) rest)
    (read : readArguments name opening offset text = .ok list)
    (expands : list.arguments.mapM (expandFragment catalog limit levels) = .ok values)
    (found : pieces[place]? = some piece) :
    (∀ letters, lastToken? piece = some (.comment letters) →
      ∃ value, values[place]? = some value ∧
        (value.getLast? = some '\n' ↔ trimEnd letters = letters)) ∧
    ∀ value front behind, ∀ f : PortableFunction, values[place]? = some value →
      CallFree catalog (argumentTokens piece) →
      f.template.toList = front ++ '<' :: 'p' :: '1' :: '>' :: behind →
      Catalog.IsFixed front → Catalog.IsFixed behind → IsPlain front → IsPlain behind →
      ((∃ position, front.length + value.length ≤ position ∧
          InComment (f.expandText [value]) position) ↔
        (∃ letters, lastToken? piece = some (.comment letters) ∧ trimEnd letters ≠ letters) ∧
          behind.head? ≠ none ∧ behind.head? ≠ some '\n') := by
  have delimited := delimited_of_reads reads piece (List.mem_of_getElem? found)
  have given := exists_value (holdsTexts_of_readArguments isList reads read) expands found
  refine ⟨fun letters last => ?_, fun value front behind f result free template fixedFront
    fixedBehind plainFront plainBehind => ?_⟩
  · rcases given with ⟨blank, _⟩ | ⟨argument, value, text, result, expands⟩
    · rw [not_isVisible_iff, ← lastToken?_eq_none_iff, last] at blank
      cases blank
    · exact ⟨value, result, newline_iff delimited text expands last⟩
  · rcases given with ⟨_, missing⟩ | ⟨argument, value', text, result', expands⟩
    · rw [result] at missing
      cases missing
    · obtain rfl : value = value' := by simpa using result.symm.trans result'
      rw [PortableFunction.expandText, template,
        Catalog.expandText_parameter fixedFront fixedBehind]
      exact commented_out_iff delimited text expands free plainFront plainBehind

/-- The newline of a comment without trailing blanks is kept, also where blanks follow it. -/
theorem newline_kept_before_blanks :
    let piece : List Token := [.word ['x'], .comment ['-', '-', 'c'], .symbol '\n', .symbol ' ']
    IsList [piece] ∧
      Reads "x--c\n )".toList (List.intercalate [.comma] [piece] ++ [.closing]) [] ∧
      readArguments "f" ⟨1, "(x--c\n )".toList⟩ 2 "x--c\n )".toList =
        .ok ⟨[⟨2, "x--c\n".toList⟩], "x--c\n ".toList, ⟨9, []⟩⟩ ∧
      [⟨2, "x--c\n".toList⟩].mapM (expandFragment Catalog.empty 64 64) = .ok ["x--c\n".toList] ∧
      ∃ value, ["x--c\n".toList][0]? = some value ∧
        (value.getLast? = some '\n' ↔ trimEnd ['-', '-', 'c'] = ['-', '-', 'c']) := by
  intro piece
  have isList : IsList [piece] := by
    refine ⟨by simp, fun other member => ?_⟩
    rw [List.mem_singleton.1 member]
    exact .other nofun nofun nofun <| .other nofun nofun nofun <|
      .other (by decide) (by decide) (by decide) <| .other (by decide) (by decide) (by decide) .nil
  have reads : Reads "x--c\n )".toList (List.intercalate [.comma] [piece] ++ [.closing]) [] := by
    show Reads ['x', '-', '-', 'c', '\n', ' ', ')'] _ []
    exact .of_nextToken? (by rfl) <| .of_nextToken? (by rfl) <| .of_nextToken? (by rfl) <|
      .of_nextToken? (by rfl) <| .of_nextToken? (by rfl) <| .nil []
  have read : readArguments "f" ⟨1, "(x--c\n )".toList⟩ 2 "x--c\n )".toList =
      .ok ⟨[⟨2, "x--c\n".toList⟩], "x--c\n ".toList, ⟨9, []⟩⟩ := eq_ok_of_toOption (by decide +kernel)
  have expands : [⟨2, "x--c\n".toList⟩].mapM (expandFragment Catalog.empty 64 64) =
      .ok ["x--c\n".toList] := eq_ok_of_toOption (by decide +kernel)
  exact ⟨isList, reads, read, expands,
    (newline_kept_iff isList reads read expands rfl).1 _ (by decide)⟩

/-- A blank at the end of the comment takes the newline with it, and the parenthesis that follows the
argument in the template is commented out. -/
theorem closing_parenthesis_commented_out :
    lastToken? [.word ['x'], .symbol ' ', .comment "-- c ".toList, .symbol '\n'] =
        some (.comment "-- c ".toList) ∧
      readArguments "f" ⟨1, "(x -- c \n)".toList⟩ 2 "x -- c \n)".toList =
        .ok ⟨[⟨2, "x -- c".toList⟩], "x -- c \n".toList, ⟨11, []⟩⟩ ∧
      expandQuery (Catalog.empty.insert ⟨"f", 1, "upper(<p1>)", none⟩) 64 "f(x -- c \n)".toList =
        .ok "upper(x -- c)".toList ∧
      InComment "upper(x -- c)".toList 12 := by
  refine ⟨by decide, eq_ok_of_toOption (by decide +kernel), eq_ok_of_toOption (by decide +kernel), ?_⟩
  rw [inComment_iff]
  decide

end PortableSql.Query
