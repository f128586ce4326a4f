import PortableSql.Proofs.Query.CallTree
import PortableSql.Proofs.Query.Parentheses

/-!
# Expansion is the evaluation of call trees

Main statement: a stretch of a query is expanded exactly if it has a tree whose calls all have an
overload and no blank argument, and whose calls are not nested too deeply; the result is the value of
the tree (`expandFragment_eq_ok_iff`). From a tree to the result the proof follows the tree. In the
other direction it follows the expansion, whose stack of open parentheses says how many groups the
tokens read so far leave to be closed (`Pending`).
-/
namespace PortableSql.Query

open Text

variable {catalog : Catalog} {limit levels : Nat}

/-! ## The steps of an expansion -/

theorem callName?_eq_some_iff {token : Token} {behind : List Char} {name : String} :
    callName? catalog token behind = some name ↔
      ∃ letters inner, token = .word letters ∧ behind = '(' :: inner ∧
        catalog.containsName (String.ofList letters) = true ∧ String.ofList letters = name := by
  unfold callName?
  constructor
  · intro call
    split at call
    · rename_i letters inner
      dsimp only at call
      split at call
      · rename_i known
        cases call
        exact ⟨letters, inner, rfl, rfl, known, rfl⟩
      · cases call
    · cases call
  · rintro ⟨letters, inner, rfl, rfl, known, rfl⟩
    simp only [known, if_true]

/-- The tokens say whether a call is opened, since no parenthesis is part of a longer token. -/
theorem opensCall_iff {token : Token} {tokens : List Token} {behind rest : List Char}
    (reads : Reads behind tokens rest) (noOpening : rest.head? ≠ some '(') :
    OpensCall catalog token tokens ↔ ∃ name, callName? catalog token behind = some name := by
  have next : tokens.head? = some .opening ↔ ∃ inner, behind = '(' :: inner := by
    cases tokens with
    | nil =>
      cases reads
      cases behind with
      | nil => simp
      | cons c cs => simpa using noOpening
    | cons token tokens =>
      obtain ⟨behind, rfl, stands, _⟩ := Reads.cons_iff.1 reads
      constructor
      · intro same
        cases same
        exact ⟨behind, rfl⟩
      · rintro ⟨inner, same⟩
        obtain ⟨c, letters, shape⟩ := List.exists_cons_of_ne_nil stands.text_ne_nil
        rw [shape] at same
        cases same
        rw [stands.eq_symbol shape rfl (by decide) rfl rfl]
        rfl
  simp only [OpensCall, next, callName?_eq_some_iff]
  constructor
  · rintro ⟨letters, rfl, ⟨inner, rfl⟩, known⟩
    exact ⟨_, letters, inner, rfl, rfl, known, rfl⟩
  · rintro ⟨_, letters, inner, rfl, rfl, known, rfl⟩
    exact ⟨letters, rfl, ⟨inner, rfl⟩, known⟩

theorem callName?_eq_none {token : Token} {tokens : List Token} {behind rest : List Char}
    (reads : Reads behind tokens rest) (noOpening : rest.head? ≠ some '(')
    (noCall : ¬ OpensCall catalog token tokens) : callName? catalog token behind = none := by
  rw [Option.eq_none_iff_forall_ne_some]
  exact fun name call => noCall ((opensCall_iff reads noOpening).2 ⟨name, call⟩)

variable {expandArgument : Fragment → Except Error (List Char)}

theorem expandCalls_nil {offset : Nat} : expandCalls catalog expandArgument [] offset [] = .ok [] := by
  rw [expandCalls]

/-- One token of an expansion. -/
theorem expandCalls_cons {opened : List Fragment} {offset : Nat} {c : Char} {cs behind : List Char}
    {token : Token} (found : nextToken? c cs = some (token, behind)) :
    expandCalls catalog expandArgument opened offset (c :: cs) =
      match callName? catalog token behind with
      | some name =>
        (readArguments name ⟨offset + byteLength token.text, behind⟩
            (offset + byteLength token.text + 1) behind.tail).bind fun list =>
          (list.arguments.mapM expandArgument).bind fun arguments =>
            (resolveCall catalog name ⟨offset, c :: cs⟩ list arguments).bind fun sql =>
              (expandCalls catalog expandArgument opened list.behind.offset list.behind.text).map
                (sql ++ ·)
      | none =>
        match openedBehind? opened ⟨offset, c :: cs⟩ token with
        | none => .error (Fragment.malformed ⟨offset, c :: cs⟩ .unbalancedParenthesis)
        | some opened =>
          (expandCalls catalog expandArgument opened (offset + byteLength token.text) behind).map
            (token.text ++ ·) := by
  rw [expandCalls]
  split
  · rename_i missing
    rw [found] at missing
    cases missing
  · rename_i token' behind' found'
    obtain ⟨rfl, rfl⟩ : token' = token ∧ behind' = behind := by simpa using found'.symm.trans found
    cases callName? catalog token' behind' with
    | some name =>
      dsimp only
      split
      · rename_i e fails
        rw [fails]
        rfl
      · rename_i list read
        rw [read]
        rfl
    | none =>
      dsimp only
      cases openedBehind? opened ⟨offset, c :: cs⟩ token' with
      | none => rfl
      | some opened' => rfl

/-- A token that opens no call is copied. -/
theorem expandCalls_copy {opened opened' : List Fragment} {offset : Nat} {c : Char}
    {cs behind : List Char} {token : Token} (found : nextToken? c cs = some (token, behind))
    (noCall : callName? catalog token behind = none)
    (still : openedBehind? opened ⟨offset, c :: cs⟩ token = some opened') :
    expandCalls catalog expandArgument opened offset (c :: cs) =
      (expandCalls catalog expandArgument opened' (offset + byteLength token.text) behind).map
        (token.text ++ ·) := by
  rw [expandCalls_cons found, noCall]
  simp only [still]

/-- A call is replaced, its arguments being expanded first. -/
theorem expandCalls_call {opened : List Fragment} {offset : Nat} {c : Char} {cs behind : List Char}
    {token : Token} {name : String} {list : ArgumentList}
    (found : nextToken? c cs = some (token, behind))
    (call : callName? catalog token behind = some name)
    (read : readArguments name ⟨offset + byteLength token.text, behind⟩
      (offset + byteLength token.text + 1) behind.tail = .ok list) :
    expandCalls catalog expandArgument opened offset (c :: cs) =
      (list.arguments.mapM expandArgument).bind fun arguments =>
        (resolveCall catalog name ⟨offset, c :: cs⟩ list arguments).bind fun sql =>
          (expandCalls catalog expandArgument opened list.behind.offset list.behind.text).map
            (sql ++ ·) := by
  rw [expandCalls_cons found, call]
  simp only [read]
  rfl

/-! ## From trees to results -/

/-- Wherever these tokens stand, they are expanded to `sql`, and the expansion goes on behind them. -/
private def Expands (catalog : Catalog) (expandArgument : Fragment → Except Error (List Char))
    (tokens : List Token) (sql : List Char) : Prop :=
  ∀ (opened : List Fragment) (offset : Nat) (text rest : List Char),
    Reads text tokens rest → rest.head? ≠ some '(' →
      ∃ place, expandCalls catalog expandArgument opened offset text =
        (expandCalls catalog expandArgument opened place rest).map (sql ++ ·)

private theorem map_append_map (front back : List Char) (result : Except Error (List Char)) :
    (result.map (back ++ ·)).map (front ++ ·) = result.map (front ++ back ++ ·) := by
  cases result with
  | error e => rfl
  | ok sql => simp [Except.map]

private theorem callName?_symbol (c : Char) (behind : List Char) :
    callName? catalog (.symbol c) behind = none := rfl

private theorem Expands.nil : Expands catalog expandArgument [] [] := by
  intro opened offset text rest reads ends
  cases reads
  refine ⟨offset, ?_⟩
  cases expandCalls catalog expandArgument opened offset text <;> rfl

private theorem Expands.copy {token : Token} {tokens : List Token} {sql : List Char}
    (notOpening : token ≠ .opening) (notClosing : token ≠ .closing)
    (noCall : ¬ OpensCall catalog token tokens)
    (later : Expands catalog expandArgument tokens sql) :
    Expands catalog expandArgument (token :: tokens) (token.text ++ sql) := by
  intro opened offset text rest reads ends
  obtain ⟨c, cs, rfl⟩ := List.exists_cons_of_ne_nil reads.text_ne_nil
  obtain ⟨behind, found, reads⟩ := reads.nextToken?
  have noName := callName?_eq_none reads ends noCall
  obtain ⟨place, after⟩ := later opened (offset + byteLength token.text) behind rest reads ends
  refine ⟨place, ?_⟩
  rw [expandCalls_copy found noName (openedBehind?_of_ne notOpening notClosing), after,
    map_append_map]

private theorem expandCalls_opening (opened : List Fragment) (offset : Nat) (behind : List Char) :
    expandCalls catalog expandArgument opened offset ('(' :: behind) =
      (expandCalls catalog expandArgument (⟨offset, '(' :: behind⟩ :: opened) (offset + 1) behind).map
        ('(' :: ·) :=
  expandCalls_copy (by rfl) (callName?_symbol '(' behind) rfl

private theorem expandCalls_closing (here : Fragment) (opened : List Fragment) (offset : Nat)
    (behind : List Char) :
    expandCalls catalog expandArgument (here :: opened) offset (')' :: behind) =
      (expandCalls catalog expandArgument opened (offset + 1) behind).map (')' :: ·) :=
  expandCalls_copy (by rfl) (callName?_symbol ')' behind) rfl

private theorem Expands.group {inner tokens : List Token} {inside sql : List Char}
    (within : Expands catalog expandArgument inner inside)
    (later : Expands catalog expandArgument tokens sql) :
    Expands catalog expandArgument (.opening :: (inner ++ .closing :: tokens))
      ('(' :: (inside ++ ')' :: sql)) := by
  intro opened offset text rest reads ends
  obtain ⟨behind, rfl, _, reads⟩ := Reads.cons_iff.1 reads
  obtain ⟨readsInner, readsClosing⟩ := reads.of_append
  obtain ⟨after, shape, _, readsAfter⟩ := Reads.cons_iff.1 readsClosing
  rw [shape] at readsInner
  let here : Fragment := ⟨offset, '(' :: behind⟩
  obtain ⟨middle, expandsInner⟩ :=
    within (here :: opened) (offset + 1) behind (')' :: after) readsInner (by simp)
  obtain ⟨place, expandsAfter⟩ := later opened (middle + 1) after rest readsAfter ends
  refine ⟨place, ?_⟩
  calc expandCalls catalog expandArgument opened offset ('(' :: behind)
      = (expandCalls catalog expandArgument (here :: opened) (offset + 1) behind).map (['('] ++ ·) :=
        expandCalls_opening opened offset behind
    _ = (expandCalls catalog expandArgument (here :: opened) middle (')' :: after)).map
          (['('] ++ inside ++ ·) := by rw [expandsInner, map_append_map]
    _ = (expandCalls catalog expandArgument opened (middle + 1) after).map
          (['('] ++ inside ++ [')'] ++ ·) := by
        rw [expandCalls_closing]
        exact map_append_map _ [')'] _
    _ = (expandCalls catalog expandArgument opened place rest).map
          ('(' :: (inside ++ ')' :: sql) ++ ·) := by
        rw [expandsAfter, map_append_map]
        simp

/-- A call whose list is read and whose arguments have these values is replaced by the template with
the values in it. -/
private theorem Expands.call {letters sql : List Char} {pieces : List (List Token)}
    {tokens : List Token} {texts values : List (List Char)} {f : PortableFunction}
    (known : catalog.containsName (String.ofList letters) = true) (list : IsList pieces)
    (holdsTexts : HoldsTexts pieces texts)
    (expands : ∀ arguments : List Fragment,
      arguments.map Fragment.text = texts → arguments.mapM expandArgument = .ok values)
    (overload : catalog.resolve (String.ofList letters) values.length = some f)
    (later : Expands catalog expandArgument tokens sql) :
    Expands catalog expandArgument
      (.word letters :: .opening :: (List.intercalate [.comma] pieces ++ .closing :: tokens))
      (f.expandText values ++ sql) := by
  intro opened offset text rest reads ends
  obtain ⟨c, cs, rfl⟩ := List.exists_cons_of_ne_nil reads.text_ne_nil
  obtain ⟨behind, found, reads⟩ := reads.nextToken?
  obtain ⟨inner, rfl, _, reads⟩ := Reads.cons_iff.1 reads
  rw [show List.intercalate [.comma] pieces ++ .closing :: tokens =
    (List.intercalate [.comma] pieces ++ [.closing]) ++ tokens by simp] at reads
  obtain ⟨inside, after⟩ := reads.of_append
  have call : callName? catalog (.word letters) (Token.opening.text ++ inner) =
      some (String.ofList letters) :=
    callName?_eq_some_iff.2 ⟨letters, inner, rfl, rfl, known, rfl⟩
  obtain ⟨list, read, same, behindList⟩ := readArguments_eq_ok_iff.2
    ⟨pieces, list, inside, holdsTexts⟩
  rw [← behindList] at after
  obtain ⟨place, expandsAfter⟩ := later opened list.behind.offset list.behind.text rest after ends
  refine ⟨place, ?_⟩
  rw [expandCalls_call found call read, expands list.arguments same]
  simp only [Except.bind, resolveCall, overload]
  rw [expandsAfter, map_append_map]

@[simp] theorem evaluateEach_length (arguments : List (List Part)) :
    (evaluateEach catalog arguments).length = arguments.length := by
  induction arguments with
  | nil => rfl
  | cons argument arguments ih => simp [evaluateEach, ih]

theorem evaluate_call {name : String} {arguments : List (List Part)} {f : PortableFunction}
    (overload : catalog.resolve name arguments.length = some f) :
    (Part.call name arguments).evaluate catalog = f.expandText (evaluateEach catalog arguments) := by
  simp only [Part.evaluate, overload]

/-- An argument is expanded to what its tokens are expanded to. -/
private theorem Expands.expandFragment {tokens : List Token} {sql : List Char} {fragment : Fragment}
    (expands : Expands catalog (expandFragment catalog limit levels) tokens sql)
    (reads : Reads fragment.text tokens []) :
    expandFragment catalog limit (levels + 1) fragment = .ok sql := by
  obtain ⟨place, whole⟩ := expands [] fragment.offset fragment.text [] reads (by simp)
  rw [Query.expandFragment, whole, expandCalls_nil]
  simp [Except.map]

/-- An argument with a part in it is not blank. -/
theorem isVisible_of_derivesEach {pieces : List (List Token)}
    {arguments : List (List Part)} (each : DerivesEach catalog pieces arguments)
    (resolves : EachResolves catalog arguments) : ∀ piece ∈ pieces, IsVisible piece := by
  induction pieces generalizing arguments with
  | nil => simp
  | cons piece pieces ih =>
    cases each with
    | cons reads argument later =>
      obtain ⟨notEmpty, _, resolvesLater⟩ := resolves
      intro other member
      rcases List.mem_cons.1 member with rfl | member
      · by_contra blank
        rw [argumentText_of_blank blank] at reads
        cases reads.eq_nil
        cases argument
        exact notEmpty rfl
      · exact ih later resolvesLater other member

mutual

/-- Tokens with a tree are expanded to the value of the tree. -/
private theorem expands_of_derives : ∀ {levels : Nat} {tokens : List Token} {parts : List Part},
    Derives catalog tokens parts → PartsResolve catalog parts → nestingOf parts ≤ levels →
      Expands catalog (expandFragment catalog limit levels) tokens (evaluateParts catalog parts)
  | _, _, _, .nil, _, _ => .nil
  | _, _, _, .copy notOpening notClosing noCall later, ⟨_, resolves⟩, shallow =>
    .copy notOpening notClosing noCall
      (expands_of_derives later resolves (Nat.le_trans (Nat.le_max_right _ _) shallow))
  | _, _, _, .group within later, ⟨resolvesWithin, resolves⟩, shallow => by
    obtain ⟨shallowWithin, shallow⟩ := Nat.max_le.1 shallow
    have group := (expands_of_derives within resolvesWithin shallowWithin).group
      (expands_of_derives later resolves shallow)
    simpa [evaluateParts, Part.evaluate] using group
  | _, _, _, .emptyCall known blank later, ⟨resolvesCall, resolves⟩, shallow => by
    obtain ⟨_, shallow⟩ := Nat.max_le.1 shallow
    obtain ⟨f, overload⟩ := Option.isSome_iff_exists.1 resolvesCall.1
    have call := Expands.call known (isList_of_blank blank) (.none (by simpa [List.intercalate] using blank))
      (fun arguments same => by rw [List.map_eq_nil_iff.1 same]; rfl) overload
      (expands_of_derives later resolves shallow)
    rw [evaluateParts, evaluate_call overload]
    simpa [List.intercalate, evaluateEach] using call
  | _, _, _, .call known list visible each later, ⟨resolvesCall, resolves⟩, shallow => by
    obtain ⟨shallowEach, shallow⟩ := Nat.max_le.1 shallow
    obtain ⟨resolvesName, resolvesEach⟩ := resolvesCall
    obtain ⟨f, overload⟩ := Option.isSome_iff_exists.1 resolvesName
    rw [evaluateParts, evaluate_call overload]
    exact .call known list (.each (isVisible_of_derivesEach each resolvesEach))
      (mapM_of_derivesEach each resolvesEach shallowEach) (by rw [evaluateEach_length, overload])
      (expands_of_derives later resolves shallow)

/-- Arguments with trees are expanded to the values of the trees. -/
private theorem mapM_of_derivesEach : ∀ {levels : Nat} {pieces : List (List Token)}
    {arguments : List (List Part)}, DerivesEach catalog pieces arguments →
      EachResolves catalog arguments → nestingOfEach arguments ≤ levels →
        ∀ fragments : List Fragment, fragments.map Fragment.text = pieces.map argumentText →
          fragments.mapM (expandFragment catalog limit levels) = .ok (evaluateEach catalog arguments)
  | _, _, _, .nil, _, _, fragments, same => by
    rw [List.map_eq_nil_iff.1 same]
    rfl
  | 0, _, _, .cons _ _ _, _, shallow, _, _ => absurd (Nat.max_le.1 shallow).1 (by simp)
  | levels + 1, _, _, .cons reads argument later, ⟨_, resolvesFirst, resolves⟩, shallow, fragments,
      same => by
    obtain ⟨shallowFirst, shallow⟩ := Nat.max_le.1 shallow
    obtain ⟨fragment, others, rfl, sameFirst, sameLater⟩ := List.map_eq_cons_iff.1 same
    have expands := expands_of_derives argument resolvesFirst (Nat.le_of_succ_le_succ shallowFirst)
    rw [← sameFirst] at reads
    rw [mapM_eq_ok_iff]
    exact .cons (expands.expandFragment reads)
      (mapM_eq_ok_iff.1 (mapM_of_derivesEach later resolves shallow others sameLater))

end

/-! ## From results to trees -/

/-- Tokens with a tree whose calls have overloads and whose arguments lie in less than `depth` calls;
`sql` is the value of the tree. -/
def HasTree (catalog : Catalog) (depth : Nat) (tokens : List Token) (sql : List Char) : Prop :=
  ∃ parts, Derives catalog tokens parts ∧ PartsResolve catalog parts ∧ nestingOf parts < depth ∧
    evaluateParts catalog parts = sql

/-- What is left to be expanded where so many groups are open: each of them is closed by a
parenthesis, up to which the tokens have a tree. -/
private def Pending (catalog : Catalog) (depth : Nat) : Nat → List Token → List Char → Prop
  | 0, tokens, sql => HasTree catalog depth tokens sql
  | opened + 1, tokens, sql =>
    ∃ inner rest inside after, tokens = inner ++ .closing :: rest ∧ sql = inside ++ ')' :: after ∧
      HasTree catalog depth inner inside ∧ Pending catalog depth opened rest after

variable {depth opened : Nat} {tokens : List Token} {sql : List Char}

theorem HasTree.nil : HasTree catalog (depth + 1) [] [] :=
  ⟨[], .nil, trivial, Nat.succ_pos depth, rfl⟩

theorem HasTree.copy {token : Token} (notOpening : token ≠ .opening)
    (notClosing : token ≠ .closing) (noCall : ¬ OpensCall catalog token tokens)
    (later : HasTree catalog depth tokens sql) :
    HasTree catalog depth (token :: tokens) (token.text ++ sql) := by
  obtain ⟨parts, derives, resolves, shallow, rfl⟩ := later
  exact ⟨_, .copy notOpening notClosing noCall derives, ⟨trivial, resolves⟩, by simpa [nestingOf, Part.nesting], rfl⟩

theorem HasTree.group {inner : List Token} {inside : List Char}
    (within : HasTree catalog depth inner inside) (later : HasTree catalog depth tokens sql) :
    HasTree catalog depth (.opening :: (inner ++ .closing :: tokens))
      ('(' :: (inside ++ ')' :: sql)) := by
  obtain ⟨parts, derives, resolves, shallow, rfl⟩ := within
  obtain ⟨later, derivesLater, resolvesLater, shallowLater, rfl⟩ := later
  exact ⟨.group parts :: later, .group derives derivesLater, ⟨resolves, resolvesLater⟩,
    Nat.max_lt.2 ⟨shallow, shallowLater⟩, by simp [evaluateParts, Part.evaluate]⟩

/-- The trees of the arguments of a list. -/
private theorem exists_trees {pieces : List (List Token)} {values : List (List Char)}
    (delimited : ∀ piece ∈ pieces, Delimited piece) (visible : ∀ piece ∈ pieces, IsVisible piece)
    (each : List.Forall₂ (fun text value => ∃ tokens, Reads text tokens [] ∧
      HasTree catalog depth tokens value) (pieces.map argumentText) values) :
    ∃ arguments, DerivesEach catalog pieces arguments ∧ EachResolves catalog arguments ∧
      nestingOfEach arguments < depth + 1 ∧ evaluateEach catalog arguments = values := by
  induction pieces generalizing values with
  | nil =>
    cases each
    exact ⟨[], .nil, trivial, Nat.succ_pos depth, rfl⟩
  | cons piece pieces ih =>
    obtain ⟨value, later, ⟨tokens, reads, parts, derives, resolves, shallow, rfl⟩, rest, rfl⟩ :=
      List.forall₂_cons_left_iff.1 each
    obtain ⟨arguments, derivesLater, resolvesLater, shallowLater, rfl⟩ :=
      ih (fun piece member => delimited piece (by simp [member]))
        (fun piece member => visible piece (by simp [member])) rest
    have notEmpty : parts ≠ [] := by
      rintro rfl
      cases derives
      have := reads.lossless
      exact argumentText_ne_nil (delimited piece (by simp)) (visible piece (by simp)) this.symm
    exact ⟨parts :: arguments, .cons reads derives derivesLater, ⟨notEmpty, resolves, resolvesLater⟩,
      Nat.max_lt.2 ⟨Nat.succ_lt_succ shallow, shallowLater⟩, rfl⟩

theorem HasTree.call {letters : List Char} {pieces : List (List Token)}
    {texts values : List (List Char)} {f : PortableFunction}
    (known : catalog.containsName (String.ofList letters) = true) (list : IsList pieces)
    (delimited : ∀ piece ∈ pieces, Delimited piece) (holdsTexts : HoldsTexts pieces texts)
    (each : List.Forall₂ (fun text value => ∃ tokens, Reads text tokens [] ∧
      HasTree catalog depth tokens value) texts values)
    (overload : catalog.resolve (String.ofList letters) values.length = some f)
    (later : HasTree catalog (depth + 1) tokens sql) :
    HasTree catalog (depth + 1)
      (.word letters :: .opening :: (List.intercalate [.comma] pieces ++ .closing :: tokens))
      (f.expandText values ++ sql) := by
  obtain ⟨later, derivesLater, resolvesLater, shallowLater, rfl⟩ := later
  cases holdsTexts with
  | none blank =>
    cases each
    refine ⟨.call (String.ofList letters) [] :: later, .emptyCall known blank derivesLater,
      ⟨⟨?_, trivial⟩, resolvesLater⟩, Nat.max_lt.2 ⟨Nat.succ_pos depth, shallowLater⟩, ?_⟩
    · exact Option.isSome_iff_exists.2 ⟨f, overload⟩
    · rw [evaluateParts, evaluate_call overload]
      rfl
  | each visible =>
    obtain ⟨arguments, derives, resolves, shallow, rfl⟩ := exists_trees delimited visible each
    rw [evaluateEach_length] at overload
    refine ⟨.call (String.ofList letters) arguments :: later,
      .call known list (list.isVisible visible) derives derivesLater,
      ⟨⟨?_, resolves⟩, resolvesLater⟩, Nat.max_lt.2 ⟨shallow, shallowLater⟩, ?_⟩
    · exact Option.isSome_iff_exists.2 ⟨f, overload⟩
    · rw [evaluateParts, evaluate_call overload]

/-- Tokens in front of the next ones go before the first group that is closed. -/
private theorem Pending.extend (front : List Token) {before : List Char}
    (step : ∀ inner inside, inner <+: tokens → HasTree catalog depth inner inside →
      HasTree catalog depth (front ++ inner) (before ++ inside))
    (pending : Pending catalog depth opened tokens sql) :
    Pending catalog depth opened (front ++ tokens) (before ++ sql) := by
  cases opened with
  | zero => exact step tokens sql List.prefix_rfl pending
  | succ opened =>
    obtain ⟨inner, rest, inside, after, rfl, rfl, within, pending⟩ := pending
    exact ⟨front ++ inner, rest, before ++ inside, after, by simp, by simp,
      step inner inside (List.prefix_append _ _) within, pending⟩

private theorem Pending.opening (pending : Pending catalog depth (opened + 1) tokens sql) :
    Pending catalog depth opened (.opening :: tokens) ('(' :: sql) := by
  obtain ⟨inner, rest, inside, after, rfl, rfl, within, pending⟩ := pending
  cases opened with
  | zero => exact within.group pending
  | succ opened =>
    obtain ⟨inner', rest', inside', after', rfl, rfl, within', pending⟩ := pending
    exact ⟨.opening :: (inner ++ .closing :: inner'), rest', '(' :: (inside ++ ')' :: inside'), after',
      by simp, by simp, within.group within', pending⟩

private theorem Pending.closing (pending : Pending catalog (depth + 1) opened tokens sql) :
    Pending catalog (depth + 1) (opened + 1) (.closing :: tokens) (')' :: sql) :=
  ⟨[], tokens, [], sql, rfl, rfl, .nil, pending⟩

/-- A token that opens no call opens a group, closes one or is copied. -/
private theorem Pending.token {token : Token} {here : Fragment} {before behind : List Fragment}
    (still : openedBehind? before here token = some behind)
    (noCall : ¬ OpensCall catalog token tokens)
    (pending : Pending catalog (depth + 1) behind.length tokens sql) :
    Pending catalog (depth + 1) before.length (token :: tokens) (token.text ++ sql) := by
  by_cases opens : token = .opening
  · subst opens
    cases still
    exact pending.opening
  · by_cases closes : token = .closing
    · subst closes
      cases before with
      | nil => cases still
      | cons first before =>
        cases still
        exact pending.closing
    · rw [openedBehind?_of_ne opens closes] at still
      cases still
      refine pending.extend [token] fun inner inside isPrefix within => ?_
      refine within.copy opens closes ?_
      rintro ⟨letters, same, next, known⟩
      obtain ⟨rest, rfl⟩ := isPrefix
      cases inner with
      | nil => cases next
      | cons => exact noCall ⟨letters, same, next, known⟩

theorem resolveCall_eq_ok_iff {name : String} {call : Fragment} {list : ArgumentList}
    {values : List (List Char)} {sql : List Char} :
    resolveCall catalog name call list values = .ok sql ↔
      ∃ f, catalog.resolve name values.length = some f ∧ f.expandText values = sql := by
  unfold resolveCall
  cases catalog.resolve name values.length <;> simp

/-- What an expansion gives is the value of a tree. -/
private theorem pending_of_expandCalls
    (arguments : ∀ fragment value, expandArgument fragment = .ok value →
      ∃ tokens, Reads fragment.text tokens [] ∧ HasTree catalog depth tokens value)
    {before : List Fragment} {offset : Nat} {text : List Char}
    (expands : expandCalls catalog expandArgument before offset text = .ok sql) :
    ∃ tokens, Reads text tokens [] ∧ Pending catalog (depth + 1) before.length tokens sql := by
  fun_induction expandCalls catalog expandArgument before offset text generalizing sql with
  | case1 =>
    cases expands
    exact ⟨[], .nil [], .nil⟩
  | case2 => cases expands
  | case3 => cases expands
  | case4 => cases expands
  | case5 before offset c cs here token behind found next name call list read =>
    rename_i ih
    obtain ⟨values, given, expands⟩ := bind_eq_ok_iff.1 expands
    obtain ⟨replaced, resolved, expands⟩ := bind_eq_ok_iff.1 expands
    obtain ⟨after, expandsAfter, same⟩ := bind_eq_ok_iff.1 expands
    cases same
    obtain ⟨f, overload, rfl⟩ := resolveCall_eq_ok_iff.1 resolved
    obtain ⟨letters, inner, rfl, rfl, known, rfl⟩ := callName?_eq_some_iff.1 call
    obtain ⟨pieces, isList, reads, holdsTexts⟩ := readArguments_eq_ok_iff.1 ⟨list, read, rfl, rfl⟩
    obtain ⟨tokens, readsAfter, pending⟩ := ih expandsAfter
    have each : List.Forall₂ (fun text value => ∃ tokens, Reads text tokens [] ∧
        HasTree catalog depth tokens value) (list.arguments.map Fragment.text) values := by
      rw [List.forall₂_map_left_iff]
      exact (mapM_eq_ok_iff.1 given).imp arguments
    have readsList : Reads ('(' :: inner)
        (.opening :: (List.intercalate [.comma] pieces ++ .closing :: tokens)) [] := by
      have whole := reads.append readsAfter
      rw [List.append_assoc] at whole
      exact Reads.cons_iff.2
        ⟨inner, rfl, .symbol rfl rfl rfl fun dash => absurd dash (by decide), whole⟩
    refine ⟨_, .of_nextToken? found readsList, ?_⟩
    have shape : Token.word letters ::
        .opening :: (List.intercalate [.comma] pieces ++ .closing :: tokens) =
      (.word letters :: .opening :: (List.intercalate [.comma] pieces ++ [.closing])) ++ tokens := by
      simp
    rw [shape]
    refine pending.extend _ fun tokens sql _ later => ?_
    have whole := later.call known isList (delimited_of_reads reads) holdsTexts each overload
    simpa using whole
  | case6 => cases expands
  | case7 before offset c cs here token behind found next noCall opened still =>
    rename_i ih
    obtain ⟨after, expandsAfter, same⟩ := bind_eq_ok_iff.1 expands
    cases same
    obtain ⟨tokens, reads, pending⟩ := ih expandsAfter
    refine ⟨token :: tokens, .of_nextToken? found reads, pending.token still ?_⟩
    rw [opensCall_iff reads (by simp), noCall]
    simp

/-- The texts that are expanded are those that have a tree, and the result is its value. -/
theorem expandFragment_eq_ok_iff {fragment : Fragment} :
    expandFragment catalog limit levels fragment = .ok sql ↔
      ∃ tokens, Reads fragment.text tokens [] ∧ HasTree catalog levels tokens sql := by
  constructor
  · intro expands
    induction levels generalizing fragment sql with
    | zero => cases expands
    | succ levels ih => exact pending_of_expandCalls (fun fragment value => ih) expands
  · rintro ⟨tokens, reads, parts, derives, resolves, shallow, rfl⟩
    cases levels with
    | zero => cases shallow
    | succ levels =>
      exact (expands_of_derives derives resolves (Nat.le_of_lt_succ shallow)).expandFragment reads

end PortableSql.Query
