import PortableSql.Proofs.Catalog.Registration
import PortableSql.Proofs.Query.ArgumentTokens
import PortableSql.Proofs.Query.Expansion
import PortableSql.Query.Translate

/-!
# What a translation depends on

Of the catalog an expansion asks two things only: whether a name directly before a parenthesis is
portable, and which function a portable call has. Catalogs that agree on these agree on every argument and
on every rest of the text as well, since an argument holds no name before a parenthesis that its list does
not hold (`AgreeOn.of_call`). So two expansions go in step, and a translation is the same under both
catalogs. What stands in templates, in quoted spans or in the values of placeholders is never asked for.
-/
namespace PortableSql.Query

open Calendar Text

variable {catalog other : Catalog}

/-! ## What a text calls -/

/-- These tokens stand in a text, up to a quoted span that is never closed. -/
def Holds (text : List Char) (part : List Token) : Prop :=
  ∃ tokens rest, Reads text tokens rest ∧ part <:+: tokens

/-- A name stands directly before a parenthesis, outside quoted spans, comments and numbers. -/
def Names (text : List Char) (name : String) : Prop :=
  Holds text [.word name.toList, .opening]

/-- A name stands before a closed list of so many arguments. -/
def Calls (text : List Char) (name : String) (arity : Nat) : Prop :=
  ∃ pieces texts, IsList pieces ∧ HoldsTexts pieces texts ∧ texts.length = arity ∧
    Holds text (.word name.toList :: .opening :: (List.intercalate [.comma] pieces ++ [.closing]))

variable {text rest : List Char} {part tokens : List Token}

theorem Holds.behind {front : List Token} (reads : Reads text front rest) (holds : Holds rest part) :
    Holds text part := by
  obtain ⟨tokens, after, readsRest, inside⟩ := holds
  exact ⟨front ++ tokens, after, reads.append readsRest, inside.trans (List.suffix_append ..).isInfix⟩

theorem Holds.of_infix {inner : List Token} (holds : Holds text part) (inside : inner <:+: part) :
    Holds text inner := by
  obtain ⟨tokens, rest, reads, among⟩ := holds
  exact ⟨tokens, rest, reads, inside.trans among⟩

/-- What a text holds is found in any reading of all of it. -/
theorem Holds.infix_of_reads (holds : Holds text part) (reads : Reads text tokens []) :
    part <:+: tokens := by
  obtain ⟨front, rest, readsFront, inside⟩ := holds
  obtain ⟨behind, rfl⟩ := readsFront.exists_append reads
  exact inside.trans (List.prefix_append ..).isInfix

theorem Calls.names {name : String} {arity : Nat} (calls : Calls text name arity) :
    Names text name := by
  obtain ⟨pieces, _, _, _, _, holds⟩ := calls
  exact holds.of_infix ⟨[], List.intercalate [.comma] pieces ++ [.closing], rfl⟩

/-- What an argument holds up to a parenthesis, the list of its call holds. -/
theorem Holds.of_argument {pieces : List (List Token)} {piece : List Token} {token : Token}
    (front : List Token)
    (reads : Reads text (List.intercalate [.comma] pieces ++ [.closing]) rest)
    (among : piece ∈ pieces) (holds : Holds (argumentText piece) (front ++ [token]))
    (visible : token.isBlank = false) (noComment : token.isComment = false) :
    Holds text (front ++ [token]) := by
  have inside := holds.infix_of_reads (reads_argumentText (delimited_of_reads reads piece among))
  have inPiece := infix_of_argumentTokens inside visible noComment
  have inList := inPiece.trans (infix_intercalate [.comma] among)
  exact ⟨_, _, reads, inList.trans (List.prefix_append ..).isInfix⟩

/-! ## Catalogs that agree -/

/-- Two catalogs agree on what a text calls: on which of its names are portable, and on the functions of
its portable calls. -/
structure AgreeOn (catalog other : Catalog) (text : List Char) : Prop where
  names : ∀ name, Names text name → catalog.containsName name = other.containsName name
  overloads : ∀ name arity, Calls text name arity → catalog.containsName name = true →
    catalog.resolve name arity = other.resolve name arity

namespace AgreeOn

theorem behind {front : List Token} (agree : AgreeOn catalog other text)
    (reads : Reads text front rest) : AgreeOn catalog other rest := by
  constructor
  · intro name names
    exact agree.names name (Holds.behind reads names)
  · rintro name arity ⟨pieces, texts, list, holdsTexts, count, holds⟩
    exact agree.overloads name arity ⟨pieces, texts, list, holdsTexts, count, holds.behind reads⟩

theorem argument {pieces : List (List Token)} {piece : List Token}
    (agree : AgreeOn catalog other text)
    (reads : Reads text (List.intercalate [.comma] pieces ++ [.closing]) rest)
    (among : piece ∈ pieces) : AgreeOn catalog other (argumentText piece) := by
  constructor
  · intro name names
    apply agree.names name
    exact Holds.of_argument [.word name.toList] reads among names rfl rfl
  · rintro name arity ⟨inner, texts, list, holdsTexts, count, holds⟩
    refine agree.overloads name arity ⟨inner, texts, list, holdsTexts, count, ?_⟩
    exact Holds.of_argument (.word name.toList :: .opening :: List.intercalate [.comma] inner)
      reads among holds rfl rfl

/-- A name before a parenthesis is read together with it. -/
private theorem reads_callee {c : Char} {cs letters inner : List Char}
    (found : nextToken? c cs = some (.word letters, '(' :: inner)) :
    Reads (c :: cs) [.word letters, .opening] inner :=
  .of_nextToken? found (.cons (Token.opening_standsBefore _) (.nil inner))

/-- Both catalogs find the same calls. -/
theorem callName? {c : Char} {cs behind : List Char} {token : Token}
    (agree : AgreeOn catalog other (c :: cs)) (found : nextToken? c cs = some (token, behind)) :
    Query.callName? catalog token behind = Query.callName? other token behind := by
  unfold Query.callName?
  split
  · rename_i letters inner
    have names : Names (c :: cs) (String.ofList letters) := by
      rw [Names, String.toList_ofList]
      exact ⟨_, _, reads_callee found, List.infix_rfl⟩
    simp only [agree.names _ names]
  · rfl

/-- Catalogs that agree on a text agree on each argument of its first call, on the function of that call
and on what follows it. -/
theorem of_call {c : Char} {cs behind : List Char} {token : Token} {name : String}
    {opening : Fragment} {place : Nat} {list : ArgumentList}
    (agree : AgreeOn catalog other (c :: cs)) (found : nextToken? c cs = some (token, behind))
    (call : Query.callName? catalog token behind = some name)
    (read : readArguments name opening place behind.tail = .ok list) :
    (∀ argument ∈ list.arguments, AgreeOn catalog other argument.text) ∧
      catalog.resolve name list.arguments.length = other.resolve name list.arguments.length ∧
      AgreeOn catalog other list.behind.text := by
  obtain ⟨letters, inner, rfl, rfl, known, rfl⟩ := callName?_eq_some_iff.1 call
  obtain ⟨pieces, isList, readsList, holdsTexts⟩ := readArguments_eq_ok_iff.1 ⟨list, read, rfl, rfl⟩
  have callee := reads_callee found
  have whole := callee.append readsList
  refine ⟨fun argument member => ?_, ?_, agree.behind whole⟩
  · have among : argument.text ∈ list.arguments.map Fragment.text := List.mem_map_of_mem member
    generalize list.arguments.map Fragment.text = texts at holdsTexts among
    cases holdsTexts with
    | none => cases among
    | each =>
      obtain ⟨piece, inPieces, same⟩ := List.mem_map.1 among
      rw [← same]
      exact (agree.behind callee).argument readsList inPieces
  · apply agree.overloads _ _ _ known
    refine ⟨pieces, _, isList, holdsTexts, List.length_map .., ?_⟩
    rw [String.toList_ofList]
    exact ⟨_, _, whole, List.infix_rfl⟩

end AgreeOn

variable {expandArgument expandOther : Fragment → Except Error (List Char)}

/-- Two expansions of a stretch of a query are the same where the catalogs agree on it and the arguments
of its calls are expanded alike. -/
theorem expandCalls_congr
    (arguments : ∀ argument : Fragment, AgreeOn catalog other argument.text →
      expandArgument argument = expandOther argument)
    {opened : List Fragment} {offset : Nat} (agree : AgreeOn catalog other text) :
    expandCalls catalog expandArgument opened offset text =
      expandCalls other expandOther opened offset text := by
  -- both runs take the same steps, since each step asks the catalogs only what they agree on
  fun_induction expandCalls catalog expandArgument opened offset text with
  | case1 offset => rw [expandCalls]
  | case2 offset opening opened => rw [expandCalls]
  | case3 opened offset c cs here missing =>
    rw [expandCalls]
    split
    · rfl
    · rename_i found
      rw [missing] at found
      cases found
  | case4 opened offset c cs token behind found next name call e fails =>
    rw [expandCalls_cons found, ← agree.callName? found, call]
    simp only [fails, next]
    rfl
  | case5 opened offset c cs here token behind found next name call list read ih =>
    -- a call: its arguments, its function and what follows it are the same
    obtain ⟨own, overload, later⟩ := agree.of_call found call read
    have same := mapM_congr fun argument member => arguments argument (own argument member)
    have callOther : callName? other token behind = some name := by
      rw [← agree.callName? found, call]
    rw [expandCalls_call found callOther read, same, ih later]
    cases given : list.arguments.mapM expandOther with
    | error e => rfl
    | ok values =>
      have count := (mapM_eq_ok_iff.1 given).length_eq
      have resolves : resolveCall catalog name here list values =
          resolveCall other name here list values := by
        rw [resolveCall, resolveCall, ← count, overload]
      simp only [Except.bind, ← resolves, here]
      rfl
  | case6 opened offset c cs here token behind found noCall none =>
    rw [expandCalls_cons found, ← agree.callName? found, noCall]
    simp only [none, here]
  | case7 opened offset c cs here token behind found next noCall opened' still ih =>
    -- a token that is copied
    have later := agree.behind (.of_nextToken? found (.nil behind))
    rw [expandCalls_cons found, ← agree.callName? found, noCall]
    simp only [still, here, next, ih later]
    rfl

/-- A fragment is expanded alike where the catalogs agree on it. -/
theorem expandFragment_congr {limit levels : Nat} {fragment : Fragment}
    (agree : AgreeOn catalog other fragment.text) :
    expandFragment catalog limit levels fragment = expandFragment other limit levels fragment := by
  induction levels generalizing fragment with
  | zero => rfl
  | succ levels ih =>
    unfold expandFragment
    exact expandCalls_congr (fun _ agreeArgument => ih agreeArgument) agree

theorem translate_congr (placeholders : Placeholder.Registry) (maxDepth : Nat) (now : DateTime)
    {query : String} (agree : AgreeOn catalog other query.toList) :
    translate catalog placeholders maxDepth now query =
      translate other placeholders maxDepth now query := by
  rw [translate, translate, expandQuery, expandQuery, expandFragment_congr agree]

/-! ## Functions that are not called -/

/-- A function is not called by a text: no name stands there that is its own, or its name is portable
without it and no call has its arity. -/
def Spares (catalog : Catalog) (f : PortableFunction) (text : List Char) : Prop :=
  (∀ name, Names text name → foldCase f.name ≠ foldCase name) ∨
    catalog.containsName f.name = true ∧ ∀ name, foldCase f.name = foldCase name → ¬ Calls text name f.arity

/-- A catalog agrees with itself, without a function that is not called, on what is called. -/
theorem AgreeOn.insert {f : PortableFunction} (spares : Spares catalog f text) :
    AgreeOn (catalog.insert f) catalog text := by
  constructor
  · intro name names
    rw [Bool.eq_iff_iff, Catalog.containsName_insert_iff]
    apply or_iff_right_of_imp
    intro same
    rcases spares with notNamed | ⟨known, _⟩
    · exact absurd same (notNamed name names)
    · rw [Catalog.containsName, ← same]
      exact known
  · intro name arity calls _
    rw [Catalog.resolve_insert, if_neg]
    intro same
    obtain ⟨sameName, rfl⟩ := Signature.mk.inj same
    rcases spares with notNamed | ⟨_, notCalled⟩
    · exact notNamed name calls.names sameName
    · exact notCalled name sameName calls

/-- A translation depends on the functions that the query calls, and on no other part of the catalog.
Under catalogs that agree on them it is the same, whether it succeeds or fails, and to register a
function that the query does not call leaves it as it is. -/
theorem translate_depends_on_calls (placeholders : Placeholder.Registry) (maxDepth : Nat)
    (now : DateTime) (query : String) :
    (∀ catalog other : Catalog, AgreeOn catalog other query.toList →
      translate catalog placeholders maxDepth now query =
        translate other placeholders maxDepth now query) ∧
    ∀ (catalog : Catalog) (f : PortableFunction), Spares catalog f query.toList →
      translate (catalog.register f).2 placeholders maxDepth now query =
        translate catalog placeholders maxDepth now query := by
  constructor
  · intro catalog other agree
    exact translate_congr placeholders maxDepth now agree
  · intro catalog f spares
    exact translate_congr placeholders maxDepth now (.insert spares)

/-- A name in an argument, in a quoted span or in a template calls nothing. -/
theorem translate_depends_on_calls_of_mentioned_name :
    let now : DateTime := ⟨⟨2000, 1, 1, by decide⟩, ⟨0, 0, 0, 0, by decide⟩⟩
    let f : PortableFunction := ⟨"f", 2, "g(<p1>, <p2>)", none⟩
    let g : PortableFunction := ⟨"g", 1, "[<p1>]", none⟩
    let catalog := Catalog.empty.insert f
    let other := (Catalog.empty.insert g).insert f
    let query := "f(g, 'g(1)')"
    AgreeOn other catalog query.toList ∧ Spares catalog g query.toList ∧
      translate other .empty 8 now query = translate catalog .empty 8 now query ∧
      translate (catalog.register g).2 .empty 8 now query = translate catalog .empty 8 now query := by
  intro now f g catalog other query
  have reads : Reads "f(g, 'g(1)')".toList
      [.word ['f'], .opening, .word ['g'], .comma, .symbol ' ',
        .quoted ['\'', 'g', '(', '1', ')', '\''], .closing] [] := by
    show Reads ['f', '(', 'g', ',', ' ', '\'', 'g', '(', '1', ')', '\'', ')'] _ _
    exact .of_nextToken? (by rfl) <| .of_nextToken? (by rfl) <| .of_nextToken? (by rfl) <|
      .of_nextToken? (by rfl) <| .of_nextToken? (by rfl) <| .of_nextToken? (by rfl) <|
      .of_nextToken? (by rfl) <| .nil []
  have onlyName : ∀ name, Names query.toList name → name = "f" := by
    intro name names
    have inside := names.infix_of_reads reads
    simp only [List.infix_cons_iff, List.cons_prefix_cons, List.infix_nil, Token.word.injEq] at inside
    apply String.ext
    simpa [Token.opening, Token.comma, Token.closing] using inside
  have agree : AgreeOn other catalog query.toList := by
    constructor
    · intro name names
      rw [onlyName name names]
      decide
    · intro name arity calls _
      rw [onlyName name calls.names]
      have apart : Signature.of g.name g.arity ≠ Signature.of "f" arity := by
        intro same
        exact absurd (congrArg Signature.name same) (show foldCase "g" ≠ foldCase "f" by decide)
      rw [Catalog.resolve_insert, Catalog.resolve_insert, Catalog.resolve_insert, if_neg apart]
  have spares : Spares catalog g query.toList := by
    apply Or.inl
    intro name names
    rw [onlyName name names]
    decide
  have depends := translate_depends_on_calls .empty 8 now query
  exact ⟨agree, spares, depends.1 other catalog agree, depends.2 catalog g spares⟩

end PortableSql.Query
