import PortableSql.Proofs.Catalog.Layout
import PortableSql.Proofs.Query.ArgumentTokens
import PortableSql.Proofs.Query.Semantics
import PortableSql.Proofs.Table

/-!
# The contents of literals

What stands between the quotes of a span has no influence on how a query is split and expanded: a
query with a character in quotes is a pattern for all queries with another text in these quotes, and
its translation is the pattern of theirs (`translate_replaceMark`). The change of one span is a map
of tokens (`Hole.fill`), with which reading, trimming, the call tree and its value all commute.
-/
namespace PortableSql.Query

open Calendar Placeholder Text

/-- The text with another one in the place of a character. -/
def replaceMark (mark : Char) (content text : List Char) : List Char :=
  text.flatMap fun c => if c = mark then content else [c]

/-- A quoted span with one character in it, and what is to stand in the place of the character. -/
structure Hole where
  quote : Char
  mark : Char
  content : List Char
  opens : isQuote quote = true
  different : mark ≠ quote
  inside : QuotedBody quote content

namespace Hole

variable (hole : Hole)

def span : Token :=
  .quoted [hole.quote, hole.mark, hole.quote]

/-- The text with the content in the place of the mark. -/
def fillText (text : List Char) : List Char :=
  replaceMark hole.mark hole.content text

/-- The token with the content in the place of the mark, if it is the span. -/
def fill (token : Token) : Token :=
  if token = hole.span then .quoted (hole.quote :: (hole.content ++ [hole.quote])) else token

/-- The mark stands in no token but the span. -/
def Clean (tokens : List Token) : Prop :=
  ∀ token ∈ tokens, token = hole.span ∨ hole.mark ∉ token.text

/-! ## Texts -/

@[simp] theorem fillText_append (front back : List Char) :
    hole.fillText (front ++ back) = hole.fillText front ++ hole.fillText back := by
  simp [fillText, replaceMark]

theorem fillText_flatMap {α : Type} (parts : List α) (textOf : α → List Char) :
    hole.fillText (parts.flatMap textOf) = parts.flatMap fun part => hole.fillText (textOf part) :=
  List.flatMap_assoc

theorem fillText_cons {c : Char} (other : c ≠ hole.mark) (text : List Char) :
    hole.fillText (c :: text) = c :: hole.fillText text := by
  simp [fillText, replaceMark, other]

theorem fillText_of_not_mem {text : List Char} (missing : hole.mark ∉ text) :
    hole.fillText text = text := by
  induction text with
  | nil => rfl
  | cons c text ih =>
    have other : c ≠ hole.mark := fun same => missing (by simp [same])
    have later := ih fun member => missing (by simp [member])
    rw [hole.fillText_cons other, later]

theorem fillText_span : hole.fillText hole.span.text = (hole.fill hole.span).text := by
  have quote : hole.quote ≠ hole.mark := hole.different.symm
  simp [fillText, replaceMark, span, fill, Token.text, quote]

theorem fill_text {token : Token} (clean : token = hole.span ∨ hole.mark ∉ token.text) :
    (hole.fill token).text = hole.fillText token.text := by
  rcases clean with rfl | missing
  · exact hole.fillText_span.symm
  · rw [hole.fillText_of_not_mem missing, fill, if_neg]
    rintro rfl
    simp [span, Token.text] at missing

variable {hole}

theorem Clean.of_subset {tokens part : List Token} (clean : hole.Clean tokens)
    (subset : part ⊆ tokens) : hole.Clean part :=
  fun token member => clean token (subset member)

theorem Clean.source {tokens : List Token} (clean : hole.Clean tokens) :
    source (tokens.map hole.fill) = hole.fillText (source tokens) := by
  induction tokens with
  | nil => rfl
  | cons token tokens ih =>
    have later := ih (clean.of_subset (by simp))
    rw [List.map_cons, source_cons, source_cons, fillText_append, later,
      hole.fill_text (clean token (by simp))]

/-! ## Tokens -/

variable (hole)

@[simp] theorem fill_symbol (c : Char) : hole.fill (.symbol c) = .symbol c := by
  simp [fill, span]

theorem fill_eq_iff {token other : Token} (noSpan : ∀ text, other ≠ .quoted text) :
    hole.fill token = other ↔ token = other := by
  unfold fill
  split
  · rename_i isSpan
    subst isSpan
    exact ⟨fun same => absurd same.symm (noSpan _), fun same => absurd same.symm (noSpan _)⟩
  · rfl

theorem fill_eq_symbol_iff {token : Token} {c : Char} :
    hole.fill token = .symbol c ↔ token = .symbol c :=
  hole.fill_eq_iff (by simp)

theorem fill_eq_word_iff {token : Token} {letters : List Char} :
    hole.fill token = .word letters ↔ token = .word letters :=
  hole.fill_eq_iff (by simp)

@[simp] theorem fill_isBlank (token : Token) : (hole.fill token).isBlank = token.isBlank := by
  unfold fill
  split
  · rename_i isSpan
    subst isSpan
    rfl
  · rfl

theorem fill_trimmed (token : Token) : (hole.fill token).trimmed = hole.fill token.trimmed := by
  cases token with
  | comment letters => simp [fill, span, Token.trimmed]
  | quoted text =>
    show (hole.fill (.quoted text)).trimmed = hole.fill (.quoted text)
    unfold fill
    split <;> rfl
  | _ => simp [fill, span, Token.trimmed]

theorem fill_head? (token : Token) : (hole.fill token).text.head? = token.text.head? := by
  unfold fill
  split
  · rename_i isSpan
    subst isSpan
    rfl
  · rfl

theorem fill_standsBefore {token : Token} {next : Option Char} (stands : token.StandsBefore next) :
    (hole.fill token).StandsBefore next := by
  unfold fill
  split
  · rename_i isSpan
    subst isSpan
    generalize same : hole.span = token at stands
    cases stands with
    | quoted _ _ closes =>
      obtain ⟨rfl, _⟩ := List.cons.inj (Token.quoted.inj same)
      exact .quoted hole.opens hole.inside closes
    | _ => cases same
  · exact stands

/-- The tokens are read as before. -/
theorem reads_fill {text rest : List Char} {tokens : List Token} (reads : Reads text tokens rest) :
    Reads (source (tokens.map hole.fill) ++ rest) (tokens.map hole.fill) rest := by
  induction reads with
  | nil => exact .nil _
  | @cons token tokens behind rest stands later ih =>
    rw [List.map_cons, source_cons, List.append_assoc]
    refine .cons (hole.fill_standsBefore ?_) ih
    -- the next token begins with the same character as before
    rw [← later.lossless] at stands
    cases later with
    | nil => exact stands
    | @cons second _ _ _ standsSecond _ =>
      obtain ⟨c, letters, shape⟩ := List.exists_cons_of_ne_nil standsSecond.text_ne_nil
      have first := hole.fill_head? second
      rw [List.map_cons, source_cons, List.append_assoc, List.head?_append, first]
      rw [source_cons, List.append_assoc, List.head?_append] at stands
      rw [shape] at stands ⊢
      exact stands

/-! ## Pieces -/

theorem map_fill_intercalate (pieces : List (List Token)) :
    (List.intercalate [.comma] pieces).map hole.fill =
      List.intercalate [.comma] (pieces.map (List.map hole.fill)) := by
  cases pieces with
  | nil => rfl
  | cons first later =>
    rw [List.map_cons, intercalate_cons, intercalate_cons, List.map_append, List.map_flatMap,
      List.flatMap_map]
    simp

theorem isVisible_fill {piece : List Token} : IsVisible (piece.map hole.fill) ↔ IsVisible piece := by
  simp [IsVisible]

theorem balanced_fill {tokens : List Token} (balanced : Balanced tokens) :
    Balanced (tokens.map hole.fill) := by
  induction balanced with
  | nil => exact .nil
  | other notOpening notClosing _ ih =>
    refine .other ?_ ?_ ih
    · rwa [ne_eq, hole.fill_eq_symbol_iff]
    · rwa [ne_eq, hole.fill_eq_symbol_iff]
  | group _ _ ihInside ihRest =>
    have group := Balanced.group ihInside ihRest
    simpa using group

theorem isPiece_fill {tokens : List Token} (piece : IsPiece tokens) :
    IsPiece (tokens.map hole.fill) := by
  induction piece with
  | nil => exact .nil
  | other notOpening notClosing notComma _ ih =>
    refine .other ?_ ?_ ?_ ih
    · rwa [ne_eq, hole.fill_eq_symbol_iff]
    · rwa [ne_eq, hole.fill_eq_symbol_iff]
    · rwa [ne_eq, hole.fill_eq_symbol_iff]
  | group inside _ ih =>
    have group := IsPiece.group (hole.balanced_fill inside) ih
    simpa using group

theorem isList_fill {pieces : List (List Token)} (list : IsList pieces) :
    IsList (pieces.map (List.map hole.fill)) := by
  refine ⟨by simpa using list.nonempty, fun piece member => ?_⟩
  obtain ⟨before, among, rfl⟩ := List.mem_map.1 member
  exact hole.isPiece_fill (list.isPiece before among)

theorem opensCall_fill {catalog : Catalog} {token : Token} {tokens : List Token} :
    OpensCall catalog (hole.fill token) (tokens.map hole.fill) ↔ OpensCall catalog token tokens := by
  have next : (tokens.map hole.fill).head? = some .opening ↔ tokens.head? = some .opening := by
    cases tokens with
    | nil => simp
    | cons second tokens => simp [hole.fill_eq_symbol_iff]
  simp only [OpensCall, next, hole.fill_eq_word_iff]

theorem delimited_fill {piece : List Token} (delimited : Delimited piece) :
    Delimited (piece.map hole.fill) := by
  obtain ⟨text, rest, reads, follows⟩ := delimited
  exact ⟨_, rest, hole.reads_fill reads, follows⟩

private theorem rdropWhile_fill (tokens : List Token) :
    (tokens.map hole.fill).rdropWhile Token.isBlank =
      (tokens.rdropWhile Token.isBlank).map hole.fill := by
  have same : Token.isBlank ∘ hole.fill = Token.isBlank := funext hole.fill_isBlank
  rw [List.rdropWhile, ← List.map_reverse, List.dropWhile_map, same, ← List.map_reverse]
  rfl

theorem lastToken?_fill (piece : List Token) :
    lastToken? (piece.map hole.fill) = (lastToken? piece).map hole.fill := by
  rw [lastToken?, rdropWhile_fill, List.getLast?_map]
  rfl

theorem endsInComment_fill (piece : List Token) :
    endsInComment (piece.map hole.fill) = endsInComment piece := by
  rw [endsInComment, endsInComment, lastToken?_fill]
  cases lastToken? piece with
  | none => rfl
  | some token =>
    by_cases isSpan : token = hole.span
    · subst isSpan
      simp [fill, span]
    · simp [fill, isSpan]

private theorem modifyLast_fill (tokens : List Token) :
    (tokens.map hole.fill).modifyLast Token.trimmed =
      (tokens.modifyLast Token.trimmed).map hole.fill := by
  rcases List.eq_nil_or_concat tokens with rfl | ⟨front, last, rfl⟩
  · rfl
  · rw [List.concat_eq_append, List.map_append, List.map_singleton, List.modifyLast_concat,
      List.modifyLast_concat, hole.fill_trimmed, List.map_append, List.map_singleton]

theorem argumentTokens_fill (piece : List Token) :
    argumentTokens (piece.map hole.fill) = (argumentTokens piece).map hole.fill := by
  have same : Token.isBlank ∘ hole.fill = Token.isBlank := funext hole.fill_isBlank
  rw [argumentTokens, argumentTokens, rdropWhile_fill, List.dropWhile_map, same, modifyLast_fill,
    endsInComment_fill, List.map_append]
  split <;> simp

variable {hole}

private theorem trimmed_clean {token : Token} (clean : token = hole.span ∨ hole.mark ∉ token.text) :
    token.trimmed = hole.span ∨ hole.mark ∉ token.trimmed.text := by
  cases token with
  | comment letters =>
    refine .inr fun member => ?_
    rcases clean with isSpan | missing
    · cases isSpan
    · obtain ⟨blanks, whole, _⟩ := trimEnd_append_drop letters
      refine missing ?_
      change hole.mark ∈ letters
      rw [whole]
      exact List.mem_append_left blanks member
  | _ => exact clean

/-- No token of an argument holds the mark, but the span. -/
theorem Clean.argumentTokens {piece : List Token} (clean : hole.Clean piece)
    (delimited : Delimited piece) : hole.Clean (argumentTokens piece) := by
  cases found : lastToken? piece with
  | none =>
    rw [argumentTokens_of_blank (not_isVisible_iff.2 (lastToken?_eq_none_iff.1 found))]
    exact fun token member => absurd member List.not_mem_nil
  | some last =>
    obtain ⟨front, trail, rfl, visible, blank⟩ := exists_of_lastToken? found
    rw [argumentTokens_append visible blank]
    intro token member
    rcases List.mem_append.1 member with member | newline
    · rcases List.mem_append.1 member with member | same
      · exact clean token (List.mem_append_left _ ((List.dropWhile_sublist _).subset member))
      · rw [List.mem_singleton.1 same]
        exact trimmed_clean (clean last (by simp))
    · split at newline
      · rename_i ends
        obtain ⟨front', letters, trail', shape, _, _⟩ := endsInComment_iff.1 ends
        rw [shape] at delimited clean
        obtain ⟨later, rfl⟩ := delimited.newline
        rw [List.mem_singleton.1 newline]
        exact clean _ (by simp)
      · cases newline

/-! ## Templates -/

variable (hole)

/-- A template without the mark puts filled arguments into the same places. -/
theorem expandText_fill {template : List Char} (fresh : hole.mark ∉ template)
    (args : List (List Char)) :
    Catalog.expandText (args.map hole.fillText) template =
      hole.fillText (Catalog.expandText args template) := by
  obtain ⟨segments, layout⟩ := Catalog.exists_layout args.length template
  have sameLength : (args.map hole.fillText).length = args.length := List.length_map _
  rw [layout.expandText_eq sameLength, layout.expandText_eq rfl, fillText_flatMap]
  refine List.flatMap_congr fun segment member => ?_
  cases segment with
  | kept c =>
    have other : c ≠ hole.mark := fun same => fresh (same ▸ layout.mem_of_kept member)
    exact (hole.fillText_cons other []).symm
  | argument index digits => simp [Catalog.Segment.fill]

/-! ## Trees -/

variable {hole}

theorem Clean.symbol {tokens : List Token} {c : Char} (clean : hole.Clean tokens)
    (member : .symbol c ∈ tokens) : c ≠ hole.mark := by
  rintro rfl
  rcases clean _ member with isSpan | missing
  · cases isSpan
  · simp [Token.text] at missing

/-- Tokens in their places, the mark in no one but the span. -/
structure Stands (hole : Hole) (tokens : List Token) : Prop where
  reads : ∃ text rest, Reads text tokens rest
  clean : hole.Clean tokens

theorem Stands.of_append {front back : List Token} (stands : hole.Stands (front ++ back)) :
    hole.Stands front ∧ hole.Stands back := by
  obtain ⟨⟨text, rest, reads⟩, clean⟩ := stands
  exact ⟨⟨⟨_, _, reads.of_append.1⟩, clean.of_subset (by simp)⟩,
    ⟨⟨_, _, reads.of_append.2⟩, clean.of_subset (by simp)⟩⟩

theorem Stands.tail {token : Token} {tokens : List Token} (stands : hole.Stands (token :: tokens)) :
    hole.Stands tokens :=
  (@Stands.of_append hole [token] tokens stands).2

/-- The parts of a group or of a list of arguments that stand in their places. -/
theorem Stands.of_closing {front back : List Token}
    (stands : hole.Stands (.opening :: (front ++ .closing :: back))) :
    hole.Stands front ∧ hole.Stands back :=
  ⟨stands.tail.of_append.1, stands.tail.of_append.2.tail⟩

/-- The pieces of a list that stands in its place. -/
theorem Stands.pieces {pieces : List (List Token)} {back : List Token}
    (stands : hole.Stands (.opening :: (List.intercalate [.comma] pieces ++ .closing :: back))) :
    ∀ piece ∈ pieces, Delimited piece ∧ hole.Clean piece := by
  have shape : List.intercalate [.comma] pieces ++ .closing :: back =
      (List.intercalate [.comma] pieces ++ [.closing]) ++ back := by simp
  obtain ⟨⟨text, rest, reads⟩, clean⟩ := stands.tail
  rw [shape] at reads
  intro piece member
  refine ⟨delimited_of_reads reads.of_append.1 piece member, clean.of_subset fun token inside => ?_⟩
  exact List.mem_append_left _ (mem_intercalate_of_mem member inside)

/-- No template that is used holds the mark. -/
def Fresh (hole : Hole) (catalog : Catalog) : Prop :=
  ∀ name arity f, catalog.resolve name arity = some f → hole.mark ∉ f.template.toList

variable {catalog : Catalog}

/-- A call in a filled query is replaced by the filled value. -/
private theorem hasTree_fill_call {depth : Nat} {letters : List Char} {pieces : List (List Token)}
    {texts : List (List Char)} {tokens : List Token} {arguments : List (List Part)}
    {later : List Part} (fresh : hole.Fresh catalog)
    (known : catalog.containsName (String.ofList letters) = true) (list : IsList pieces)
    (resolves : (catalog.resolve (String.ofList letters) arguments.length).isSome = true)
    (stands : hole.Stands (.opening :: (List.intercalate [.comma] pieces ++ .closing :: tokens)))
    (holdsTexts : HoldsTexts (pieces.map (List.map hole.fill)) texts)
    (each : List.Forall₂ (fun text value => ∃ tokens, Reads text tokens [] ∧
      HasTree catalog depth tokens value) texts ((evaluateEach catalog arguments).map hole.fillText))
    (rest : HasTree catalog (depth + 1) (tokens.map hole.fill)
      (hole.fillText (evaluateParts catalog later))) :
    HasTree catalog (depth + 1)
      ((.word letters :: .opening ::
        (List.intercalate [.comma] pieces ++ .closing :: tokens)).map hole.fill)
      (hole.fillText (evaluateParts catalog (.call (String.ofList letters) arguments :: later))) := by
  obtain ⟨f, overload⟩ := Option.isSome_iff_exists.1 resolves
  have delimited : ∀ piece ∈ pieces.map (List.map hole.fill), Delimited piece := by
    intro piece member
    obtain ⟨before, among, rfl⟩ := List.mem_map.1 member
    exact hole.delimited_fill (stands.pieces before among).1
  have overload' : catalog.resolve (String.ofList letters)
      ((evaluateEach catalog arguments).map hole.fillText).length = some f := by
    rw [List.length_map, evaluateEach_length, overload]
  have call := rest.call known (hole.isList_fill list) delimited holdsTexts each overload'
  have value : f.expandText ((evaluateEach catalog arguments).map hole.fillText) =
      hole.fillText (f.expandText (evaluateEach catalog arguments)) :=
    hole.expandText_fill (fresh _ _ f overload) _
  rw [evaluateParts, evaluate_call overload, fillText_append, ← value]
  have word : hole.fill (.word letters) = .word letters := hole.fill_eq_word_iff.2 rfl
  simpa [word, hole.map_fill_intercalate] using call

mutual

/-- The tree of a query is the tree of the filled query, and its value the filled value. -/
private theorem hasTree_fill (fresh : hole.Fresh catalog) :
    ∀ {depth : Nat} {tokens : List Token} {parts : List Part}, Derives catalog tokens parts →
      PartsResolve catalog parts → nestingOf parts < depth → hole.Stands tokens →
      HasTree catalog depth (tokens.map hole.fill) (hole.fillText (evaluateParts catalog parts))
  | 0, _, _, _, _, shallow, _ => absurd shallow (Nat.not_lt_zero _)
  | _ + 1, _, _, .nil, _, _, _ => .nil
  | _ + 1, _, _, .copy notOpening notClosing noCall later, ⟨_, resolves⟩, shallow, stands => by
    have rest := hasTree_fill fresh later resolves (Nat.max_lt.1 shallow).2 stands.tail
    rw [evaluateParts, Part.evaluate, fillText_append,
      ← hole.fill_text (stands.clean _ List.mem_cons_self)]
    refine rest.copy ?_ ?_ ?_
    · rwa [ne_eq, hole.fill_eq_symbol_iff]
    · rwa [ne_eq, hole.fill_eq_symbol_iff]
    · rwa [hole.opensCall_fill]
  | _ + 1, _, _, .group within later, ⟨resolvesWithin, resolves⟩, shallow, stands => by
    obtain ⟨shallowWithin, shallow⟩ := Nat.max_lt.1 shallow
    obtain ⟨standsWithin, standsLater⟩ := stands.of_closing
    have group := (hasTree_fill fresh within resolvesWithin shallowWithin standsWithin).group
      (hasTree_fill fresh later resolves shallow standsLater)
    have opening : '(' ≠ hole.mark := stands.clean.symbol List.mem_cons_self
    have closing : ')' ≠ hole.mark :=
      stands.clean.symbol (List.mem_cons_of_mem _ (List.mem_append_right _ List.mem_cons_self))
    simpa [evaluateParts, Part.evaluate, hole.fillText_cons, opening, closing] using group
  | _ + 1, _, _, @Derives.emptyCall _ _ blanks _ _ known blank later,
      ⟨⟨resolvesName, _⟩, resolves⟩, shallow, stands => by
    have rest := hasTree_fill fresh later resolves (Nat.max_lt.1 shallow).2 stands.tail.of_closing.2
    rw [← @List.intercalate_singleton _ [.comma] blanks] at blank stands ⊢
    have list : IsList [blanks] := isList_of_blank (by rwa [List.intercalate_singleton] at blank)
    refine hasTree_fill_call fresh known list resolvesName stands.tail (.none ?_) .nil rest
    rwa [← hole.map_fill_intercalate, hole.isVisible_fill]
  | _ + 1, _, _, .call known list visible each later, ⟨⟨resolvesName, resolvesEach⟩, resolves⟩,
      shallow, stands => by
    obtain ⟨shallowEach, shallow⟩ := Nat.max_lt.1 shallow
    have visibleEach := isVisible_of_derivesEach each resolvesEach
    have rest := hasTree_fill fresh later resolves shallow stands.tail.of_closing.2
    refine hasTree_fill_call fresh known list resolvesName stands.tail (.each ?_) ?_ rest
    · intro piece member
      obtain ⟨before, among, rfl⟩ := List.mem_map.1 member
      exact hole.isVisible_fill.2 (visibleEach before among)
    · exact trees_fill fresh each resolvesEach shallowEach stands.tail.pieces

private theorem trees_fill (fresh : hole.Fresh catalog) :
    ∀ {depth : Nat} {pieces : List (List Token)} {arguments : List (List Part)},
      DerivesEach catalog pieces arguments → EachResolves catalog arguments →
      nestingOfEach arguments < depth + 1 →
      (∀ piece ∈ pieces, Delimited piece ∧ hole.Clean piece) →
      List.Forall₂ (fun text value => ∃ tokens, Reads text tokens [] ∧
          HasTree catalog depth tokens value)
        ((pieces.map (List.map hole.fill)).map argumentText)
        ((evaluateEach catalog arguments).map hole.fillText)
  | _, _, _, .nil, _, _, _ => .nil
  | depth, piece :: _, _, .cons reads argument later, ⟨_, resolvesFirst, resolves⟩, shallow,
      stands => by
    obtain ⟨shallowFirst, shallow⟩ := Nat.max_lt.1 shallow
    obtain ⟨delimited, clean⟩ := stands piece (by simp)
    obtain rfl := reads.unique (reads_argumentText delimited)
    have first := hasTree_fill fresh argument resolvesFirst (Nat.lt_of_succ_lt_succ shallowFirst)
      ⟨⟨_, _, reads⟩, clean.argumentTokens delimited⟩
    rw [← hole.argumentTokens_fill] at first
    exact .cons ⟨_, reads_argumentText (hole.delimited_fill delimited), first⟩
      (trees_fill fresh later resolves shallow fun piece member => stands piece (by simp [member]))

end

private theorem not_mem_text {tokens : List Token} {c : Char} (none : (source tokens).count c = 0) :
    ∀ token ∈ tokens, c ∉ token.text := by
  intro token member inside
  rw [List.count_eq_zero] at none
  exact none (List.mem_flatMap.2 ⟨token, member, inside⟩)

/-- A mark that stands once in the text stands in no token but the span. -/
private theorem clean_of_count {before behind : List Token}
    (once : (source (before ++ [hole.span] ++ behind)).count hole.mark = 1) :
    hole.Clean (before ++ [hole.span] ++ behind) := by
  have quote : hole.quote ≠ hole.mark := hole.different.symm
  have inSpan : hole.span.text.count hole.mark = 1 := by simp [span, Token.text, quote]
  rw [source_append, source_append, source_cons, source_nil, List.append_nil, List.count_append,
    List.count_append, inSpan] at once
  have noneBefore := @not_mem_text before hole.mark (by omega)
  have noneBehind := @not_mem_text behind hole.mark (by omega)
  intro token member
  rcases List.mem_append.1 member with member | member
  · rcases List.mem_append.1 member with member | isSpan
    · exact .inr (noneBefore token member)
    · exact .inl (List.mem_singleton.1 isSpan)
  · exact .inr (noneBehind token member)

end Hole

private theorem mem_of_findEntry {κ ν : Type} [DecidableEq κ] {key : κ} {value : ν}
    {entries : List (κ × ν)} (found : Table.findEntry key entries = some value) :
    value ∈ entries.map (·.2) :=
  List.mem_map_of_mem (Table.mem_of_findEntry found)

private theorem quoted_mark {quote mark : Char} {next : Option Char}
    (stands : Token.StandsBefore (.quoted [quote, mark, quote]) next) :
    isQuote quote = true ∧ mark ≠ quote := by
  generalize same : Token.quoted [quote, mark, quote] = token at stands
  cases stands with
  | quoted opens inside closes =>
    obtain ⟨rfl, shape⟩ := List.cons.inj (Token.quoted.inj same)
    obtain ⟨rfl, _⟩ := List.append_inj' (show [mark] ++ [quote] = _ from shape) rfl
    cases inside with
    | other different => exact ⟨opens, different⟩
  | _ => cases same

/-- What stands in a quoted span has no influence on the translation of a query: where a query with a
mark in a span is translated, so is the query with any other content in the span, and the content
stands wherever the mark stands in the translation. -/
theorem translate_replaceMark {catalog : Catalog} {maxDepth : Nat} {now : DateTime}
    {query sql : String} {placeholders : Registry} {quote mark : Char} {content after : List Char}
    {earlier : List Token} (fresh : ∀ f ∈ catalog.functions, mark ∉ f.template.toList)
    (reads : Reads query.toList (earlier ++ [.quoted [quote, mark, quote]]) after)
    (once : query.toList.count mark = 1) (inside : QuotedBody quote content)
    (translates : translate catalog .empty maxDepth now query = (.ok sql, placeholders)) :
    translate catalog .empty maxDepth now (String.ofList (replaceMark mark content query.toList)) =
      (.ok (String.ofList (replaceMark mark content sql.toList)), placeholders) := by
  obtain ⟨_, _, stands, _⟩ := Reads.cons_iff.1 reads.of_append.2
  obtain ⟨opens, different⟩ := quoted_mark stands
  let hole : Hole := ⟨quote, mark, content, opens, different, inside⟩
  obtain ⟨rfl, expands⟩ := translate_empty_eq_ok_iff.1 translates
  obtain ⟨tokens, whole, parts, derives, resolves, shallow, value⟩ :=
    expandFragment_eq_ok_iff.1 expands
  obtain ⟨behind, rfl⟩ := reads.exists_append whole
  have text := whole.lossless
  rw [List.append_nil] at text
  have clean : hole.Clean (earlier ++ [.quoted [quote, mark, quote]] ++ behind) := by
    apply Hole.clean_of_count
    change (source (earlier ++ [.quoted [quote, mark, quote]] ++ behind)).count mark = 1
    rw [text]
    exact once
  have freshTemplates : hole.Fresh catalog :=
    fun name arity f overload => fresh f (mem_of_findEntry overload)
  have tree := Hole.hasTree_fill freshTemplates derives resolves shallow ⟨⟨_, _, whole⟩, clean⟩
  have readsFilled := hole.reads_fill whole
  rw [List.append_nil, clean.source, text] at readsFilled
  rw [value] at tree
  rw [translate_empty_eq_ok_iff, String.toList_ofList, String.toList_ofList]
  exact ⟨rfl, expandFragment_eq_ok_iff.2 ⟨_, readsFilled, tree⟩⟩

/-- A comma, a parenthesis, dashes, a parameter and a doubled quote in a literal change nothing. -/
theorem translate_literal_of_everything :
    let catalog := Catalog.empty.insert ⟨"f", 1, "[<p1>|<p1>]", none⟩
    let now : DateTime := ⟨⟨2000, 1, 1, by decide⟩, ⟨0, 0, 0, 0, by decide⟩⟩
    let content : List Char := [',', ')', '-', '-', '<', 'p', '1', '>', '\'', '\'']
    (∀ f ∈ catalog.functions, '?' ∉ f.template.toList) ∧
      Reads "f('?')".toList ([.word ['f'], .opening] ++ [.quoted ['\'', '?', '\'']]) [')'] ∧
      "f('?')".toList.count '?' = 1 ∧ QuotedBody '\'' content ∧
      translate catalog .empty 64 now "f('?')" = (.ok "['?'|'?']", .empty) ∧
      translate catalog .empty 64 now (String.ofList (replaceMark '?' content "f('?')".toList)) =
        (.ok (String.ofList (replaceMark '?' content "['?'|'?']".toList)), .empty) := by
  intro catalog now content
  have fresh : ∀ f ∈ catalog.functions, '?' ∉ f.template.toList := by decide
  have reads : Reads "f('?')".toList
      ([.word ['f'], .opening] ++ [.quoted ['\'', '?', '\'']]) [')'] := by
    show Reads ['f', '(', '\'', '?', '\'', ')'] _ _
    exact .of_nextToken? (by rfl) <| .of_nextToken? (by rfl) <| .of_nextToken? (by rfl) <| .nil _
  have inside : QuotedBody '\'' content := by
    iterate 8 refine .other (by decide) ?_
    exact .doubled .nil
  have translates : translate catalog .empty 64 now "f('?')" = (.ok "['?'|'?']", .empty) :=
    translate_empty_eq_ok_iff.2 ⟨rfl, eq_ok_of_toOption (by decide +kernel)⟩
  exact ⟨fresh, reads, by decide, inside, translates,
    translate_replaceMark fresh reads (by decide) inside translates⟩

end PortableSql.Query
