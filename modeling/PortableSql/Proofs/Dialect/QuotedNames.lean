import PortableSql.Proofs.Dialect.Quoting
import PortableSql.Proofs.Query.Enclosure
import PortableSql.Proofs.Translator.Retranslation

/-!
# Quoted names

What a translator makes of the names that it quotes itself. The quotes of PostgreSQL and SQLite are those of
quoted spans, so every name is kept. The backticks and brackets of the other two are read as symbols, and the
name between them as query text. Main statement: exactly which names are kept (`keepsQuoted_new_iff`).
-/
namespace PortableSql

open Calendar Dialect Placeholder Query Text

namespace Translator

/-- A translator keeps a name that it has quoted, for itself and as the argument of a call. -/
def KeepsQuoted (translator : Translator) (name : String) : Prop :=
  translator.translate (translator.quoteIdentifier name) =
      (.ok (translator.quoteIdentifier name), translator) ∧
    ∃ upper, translator.functions.resolve "AFUpper" 1 = some upper ∧
      translator.translate ("AFUpper(" ++ translator.quoteIdentifier name ++ ")") =
        (.ok (upper.expand [translator.quoteIdentifier name]), translator)

end Translator

/-- A name in which nothing stands that a query is read by: no quote, no parenthesis, no comma, no
delimiter of placeholders and no comment. -/
structure IsInert (name : String) : Prop where
  plain : ∀ c ∈ name.toList, c ∉ ['\'', '"', '(', ')', ',', delimiter]
  noComment : ¬ ['-', '-'] <:+: name.toList

/-! ## Text that is read as it stands -/

/-- Tokens that are copied wherever they stand in a query: their parentheses balance and hold all of their
commas, no call is opened, no registered placeholder stands there, and no comment goes on behind them. -/
structure IsUndisturbed (catalog : Catalog) (placeholders : Placeholder.Registry)
    (tokens : List Token) : Prop where
  piece : IsPiece tokens
  callFree : CallFree catalog tokens
  placeholderFree : PlaceholderFree placeholders tokens
  noComment : ∀ token ∈ tokens.getLast?, token.isComment = false

private def upperFunction : PortableFunction :=
  .builtin "AFUpper" 1 "upper(<p1>)" "Upper-case a string"

private theorem resolve_upper (dialect : Dialect) :
    dialect.catalog.resolve "AFUpper" 1 = some upperFunction := by
  rw [Dialect.resolve_catalog]
  have own : Catalog.lastNamed dialect.profile.functions "AFUpper" 1 = none := by
    cases dialect <;> decide +kernel
  have shared : Catalog.lastNamed sharedFunctions "AFUpper" 1 = some upperFunction := by
    decide +kernel
  rw [own, shared]
  rfl

private theorem expandText_upper (argument : List Char) :
    upperFunction.expandText [argument] = "upper".toList ++ '(' :: (argument ++ [')']) := by
  have fixed : ∀ {text : List Char}, '<' ∉ text → Catalog.IsFixed text := by
    intro text missing behind isSuffix
    exact absurd (isSuffix.subset (by simp)) missing
  have front : Catalog.IsFixed "upper(".toList := fixed (by decide)
  have behind : Catalog.IsFixed [')'] := fixed (by decide)
  exact Catalog.expandText_parameter front behind argument

private theorem isBlank_openQuote (dialect : Dialect) :
    isBlank dialect.profile.openQuote = false := by
  cases dialect <;> rfl

private theorem isBlank_closeQuote (dialect : Dialect) :
    isBlank dialect.profile.closeQuote = false := by
  cases dialect <;> rfl

private theorem trim_quoteIdentifier (dialect : Dialect) (name : String) :
    trim (dialect.quoteIdentifier name).toList = (dialect.quoteIdentifier name).toList := by
  rw [quoteIdentifier_toList, trim, trimStart_cons_of_not_blank (isBlank_openQuote dialect),
    ← List.cons_append, trimEnd_concat_of_not_blank (isBlank_closeQuote dialect)]

private theorem upper_standsBefore : (Token.word "upper".toList).StandsBefore (some '(') :=
  Token.word_standsBefore rfl rfl rfl

private theorem callName_standsBefore : (Token.word "AFUpper".toList).StandsBefore (some '(') :=
  Token.word_standsBefore rfl rfl rfl

private theorem toList_call (dialect : Dialect) (name : String) :
    ("AFUpper(" ++ dialect.quoteIdentifier name ++ ")").toList =
      "AFUpper".toList ++ '(' :: ((dialect.quoteIdentifier name).toList ++ [')']) := by
  rw [String.toList_append, String.toList_append, List.append_assoc]
  rfl

/-- A quoted name that is read as it stands is kept. -/
theorem Translator.keepsQuoted_of_isUndisturbed {dialect : Dialect} {options : Options}
    {now : DateTime} {name : String} {tokens : List Token} (deep : 0 < options.maxDepth)
    (reads : Reads (dialect.quoteIdentifier name).toList tokens [])
    (undisturbed : IsUndisturbed dialect.catalog dialect.placeholders tokens) :
    (Translator.new dialect options now).KeepsQuoted name := by
  obtain ⟨piece, callFree, placeholderFree, noComment⟩ := undisturbed
  obtain ⟨argument, same⟩ := reads.argument_eq_self noComment (trim_quoteIdentifier dialect name)
  have overload : dialect.catalog.resolve (String.ofList "AFUpper".toList) 1 = some upperFunction := by
    rw [String.ofList_toList]
    exact resolve_upper dialect
  have visible : IsVisible tokens := by
    have written := reads.source_eq
    rw [reads.isVisible_iff, written, quoteIdentifier_toList]
    simp [allBlank, isBlank_openQuote]
  have single : List.intercalate [Token.comma] [tokens] = tokens := by simp [List.intercalate]
  have readsCall : Reads ("AFUpper(" ++ dialect.quoteIdentifier name ++ ")").toList
      (.word "AFUpper".toList :: .opening :: (List.intercalate [.comma] [tokens] ++ [.closing])) [] := by
    rw [single, toList_call]
    exact reads.enclosed noComment callName_standsBefore
  have expansion : upperFunction.expandText ([tokens].map argumentText) =
      "upper".toList ++ '(' :: ((dialect.quoteIdentifier name).toList ++ [')']) := by
    rw [List.map_cons, List.map_nil, argument, expandText_upper]
  have readsResult : Reads (upperFunction.expandText ([tokens].map argumentText))
      (.word "upper".toList :: .opening :: (tokens ++ [.closing])) [] := by
    rw [expansion]
    exact reads.enclosed noComment upper_standsBefore
  have settled : PlaceholderFree dialect.placeholders
      (.word "upper".toList :: .opening :: (tokens ++ [.closing])) :=
    .cons (by simp) (.cons (by decide) (placeholderFree.concat (by decide)))
  have freeArgument : ∀ piece ∈ [tokens], CallFree dialect.catalog (argumentTokens piece) :=
    List.forall_mem_singleton.2 (by rw [same]; exact callFree)
  have translates : (Translator.new dialect options now).translate
      ("AFUpper(" ++ dialect.quoteIdentifier name ++ ")") = _ :=
    translate_of_plainCall deep readsCall (Catalog.containsName_of_resolve overload)
      ⟨by simp, List.forall_mem_singleton.2 piece⟩ (List.forall_mem_singleton.2 visible) freeArgument
      overload readsResult settled
  refine ⟨translate_of_plain reads piece.balanced callFree placeholderFree, upperFunction,
    resolve_upper dialect, translates.trans ?_⟩
  rw [List.map_cons, List.map_nil, argument]
  rfl

/-! ## Quotes that open spans -/

/-- A name between quotes of spans is a single token. -/
private theorem reads_span {dialect : Dialect} (name : String)
    (same : dialect.profile.openQuote = dialect.profile.closeQuote)
    (opens : isQuote dialect.profile.openQuote = true) :
    Reads (dialect.quoteIdentifier name).toList
      [.quoted (dialect.quoteIdentifier name).toList] [] := by
  refine Reads.cons_iff.2 ⟨[], by rw [List.append_nil]; rfl, ?_, .nil []⟩
  rw [quoteIdentifier_toList, ← same]
  exact .quoted opens (Profile.quotedBody_escapeName _ _) (by simp)

private theorem isUndisturbed_span (catalog : Catalog) (placeholders : Placeholder.Registry)
    (text : List Char) : IsUndisturbed catalog placeholders [.quoted text] where
  piece := .other nofun nofun nofun .nil
  callFree := .of_no_word fun letters member => by cases List.mem_singleton.1 member
  placeholderFree := .of_not_mem fun member => by cases List.mem_singleton.1 member
  noComment token last := Option.some.inj last ▸ rfl

/-- Where quotes open spans, every name is kept. -/
private theorem Translator.keepsQuoted_of_span {dialect : Dialect} {options : Options}
    {now : DateTime} (deep : 0 < options.maxDepth) (spans : dialect = .postgres ∨ dialect = .sqlite)
    (name : String) : (Translator.new dialect options now).KeepsQuoted name := by
  rcases spans with rfl | rfl <;>
    exact keepsQuoted_of_isUndisturbed deep (reads_span name rfl rfl) (isUndisturbed_span _ _ _)

/-! ## Quotes that are symbols -/

private theorem mem_escapeName {quote c : Char} {name : List Char}
    (member : c ∈ Profile.escapeName quote name) : c ∈ name := by
  obtain ⟨d, among, inside⟩ := List.mem_flatMap.1 member
  split at inside
  · have same : c = d := by simpa using inside
    rw [same]
    exact among
  · rw [List.mem_singleton.1 inside]
    exact among

private theorem head?_escapeName (quote : Char) (name : List Char) :
    (Profile.escapeName quote name).head? = name.head? := by
  cases name with
  | nil => rfl
  | cons c name =>
    rw [Profile.escapeName_cons]
    split <;> rfl

/-- Escaping brings no dashes together. -/
private theorem dashes_of_escapeName {quote : Char} (notDash : quote ≠ '-') {name : List Char}
    (dashes : ['-', '-'] <:+: Profile.escapeName quote name) : ['-', '-'] <:+: name := by
  induction name with
  | nil => exact dashes
  | cons c name ih =>
    rw [Profile.escapeName_cons] at dashes
    split at dashes
    · rename_i same
      have other : ∀ {text : List Char}, ¬ ['-', '-'] <+: c :: text := by
        intro text front
        exact notDash (same ▸ (List.cons_prefix_cons.1 front).1.symm)
      have later := (List.infix_cons_iff.1 dashes).resolve_left other
      have last := (List.infix_cons_iff.1 later).resolve_left other
      exact List.infix_cons (ih last)
    · rcases List.infix_cons_iff.1 dashes with front | later
      · obtain ⟨rfl, back, second⟩ := List.cons_prefix_cons.1 front
        have head := head?_escapeName quote name
        rw [← show _ = Profile.escapeName quote name from second] at head
        obtain ⟨rest, rfl⟩ := List.head?_eq_some_iff.1 head.symm
        exact ⟨[], rest, rfl⟩
      · exact List.infix_cons (ih later)

/-- The quotes of the engines that do not quote names as spans are quoted. -/
private theorem IsInert.quoteIdentifier {dialect : Dialect} {name : String} (inert : IsInert name)
    (symbols : dialect = .mySql ∨ dialect = .sqlServer) :
    IsInert (dialect.quoteIdentifier name) := by
  obtain ⟨plain, noComment⟩ := inert
  have opens : dialect.profile.openQuote ∉ ['\'', '"', '(', ')', ',', delimiter] ∧
      dialect.profile.openQuote ≠ '-' := by
    rcases symbols with rfl | rfl <;> decide
  have closes : dialect.profile.closeQuote ∉ ['\'', '"', '(', ')', ',', delimiter] ∧
      dialect.profile.closeQuote ≠ '-' := by
    rcases symbols with rfl | rfl <;> decide
  constructor
  · rw [quoteIdentifier_toList, List.forall_mem_cons, List.forall_mem_append]
    exact ⟨opens.1, fun c member => plain c (mem_escapeName member),
      List.forall_mem_singleton.2 closes.1⟩
  · rw [quoteIdentifier_toList]
    intro dashes
    rcases List.infix_cons_iff.1 dashes with front | later
    · exact opens.2 (List.cons_prefix_cons.1 front).1.symm
    · rcases List.infix_concat_iff.1 later with ⟨front, atEnd⟩ | inside
      · have last := congrArg List.getLast? atEnd
        rw [List.getLast?_append_of_ne_nil _ (by simp), List.getLast?_concat] at last
        exact closes.2 (Option.some.inj last).symm
      · exact noComment (dashes_of_escapeName closes.2 inside)

/-- A text without quotes has a reading. -/
private theorem exists_reads {text : List Char} (noQuote : ∀ c ∈ text, isQuote c = false) :
    ∃ tokens, Reads text tokens [] := by
  induction length : text.length using Nat.strong_induction_on generalizing text with
  | _ n ih =>
    cases text with
    | nil => exact ⟨[], .nil []⟩
    | cons c cs =>
      have first := noQuote c (by simp)
      obtain ⟨⟨token, behind⟩, found⟩ : ∃ next, nextToken? c cs = some next := by
        unfold nextToken?
        rw [if_neg (by simp [first])]
        split
        · exact ⟨_, rfl⟩
        · split
          · exact ⟨_, rfl⟩
          · split <;> exact ⟨_, rfl⟩
      have shorter := nextToken?_length found
      have noQuoteBehind : ∀ d ∈ behind, isQuote d = false := by
        intro d member
        refine noQuote d ?_
        rw [← nextToken?_append found]
        exact List.mem_append_right _ member
      obtain ⟨tokens, reads⟩ :=
        ih behind.length (by simp only [← length, List.length_cons]; omega) noQuoteBehind rfl
      exact ⟨token :: tokens, .of_nextToken? found reads⟩

private theorem symbol_not_mem {text : List Char} {tokens : List Token} {c : Char}
    (reads : Reads text tokens []) (missing : c ∉ text) : .symbol c ∉ tokens := by
  intro member
  have written := reads.source_eq
  refine missing ?_
  rw [← written]
  exact List.mem_flatMap.2 ⟨_, member, by simp [Token.text]⟩

/-- A text in which nothing stands that a query is read by is read as it stands. -/
theorem IsInert.exists_isUndisturbed {text : String} (inert : IsInert text) (catalog : Catalog)
    (placeholders : Placeholder.Registry) :
    ∃ tokens, Reads text.toList tokens [] ∧ IsUndisturbed catalog placeholders tokens := by
  obtain ⟨plain, noComment⟩ := inert
  have noQuote : ∀ c ∈ text.toList, isQuote c = false := by
    intro c member
    by_contra quote
    rcases isQuote_iff.1 (by simpa using quote) with rfl | rfl <;> exact plain _ member (by decide)
  obtain ⟨tokens, reads⟩ := exists_reads noQuote
  have missing : ∀ c ∈ ['\'', '"', '(', ')', ',', delimiter], .symbol c ∉ tokens :=
    fun c bad => symbol_not_mem reads fun member => plain c member bad
  refine ⟨tokens, reads, ?_, ?_, .of_not_mem (missing _ (by decide)), ?_⟩
  · have none : tokens.filter Token.isStructural = [] := by
      rw [List.filter_eq_nil_iff]
      intro token member structural
      rcases Token.isStructural_iff.1 structural with rfl | rfl | rfl <;>
        exact missing _ (by decide) member
    exact IsPiece.nil.of_filter_eq none.symm
  · intro letters pair
    exact absurd (pair.subset (by simp)) (missing '(' (by decide))
  · exact fun token last => reads.not_isComment noComment token (List.mem_of_getLast? last)

/-! ## Names that are not kept -/

private theorem arity_of_upper {dialect : Dialect} {arity : Nat} {f : PortableFunction}
    (found : dialect.catalog.resolve "AFUpper" arity = some f) : arity = 1 := by
  have own : dialect.profile.functions.all (fun f =>
      foldCase f.name != foldCase "AFUpper" || f.arity == 1) = true := by
    cases dialect <;> decide +kernel
  have shared : sharedFunctions.all (fun f =>
      foldCase f.name != foldCase "AFUpper" || f.arity == 1) = true := by
    decide +kernel
  rw [List.all_eq_true] at own shared
  obtain ⟨same, known⟩ := resolve_catalog_eq_some found
  have name : foldCase f.name = foldCase "AFUpper" := congrArg Signature.name same
  have count : f.arity = arity := congrArg Signature.arity same
  have single : (foldCase f.name != foldCase "AFUpper" || f.arity == 1) = true := by
    rcases known with member | ⟨member, _⟩
    · exact own f member
    · exact shared f member
  rw [name, bne_self_eq_false, Bool.false_or, beq_iff_eq] at single
  rw [← count, single]

private theorem new_exists_parts {dialect : Dialect} {options : Options} {now : DateTime}
    {query sql : String} {after : Translator}
    (translates : (Translator.new dialect options now).translate query = (.ok sql, after)) :
    ∃ tokens parts, Reads query.toList tokens [] ∧ Derives dialect.catalog tokens parts ∧
      PartsResolve dialect.catalog parts ∧
      (dialect.placeholders.substituteText now (evaluateParts dialect.catalog parts)).1 = sql.toList :=
  Translator.exists_parts translates

/-- Where quotes are symbols, a quoted name that is kept is read as it stands: else its first call or
placeholder would be seen in the result, or it would not be the one argument of the call. -/
private theorem Translator.KeepsQuoted.exists_isUndisturbed {dialect : Dialect} {options : Options}
    {now : DateTime} {name : String} (symbols : dialect = .mySql ∨ dialect = .sqlServer)
    (kept : (Translator.new dialect options now).KeepsQuoted name) :
    ∃ tokens, Reads (dialect.quoteIdentifier name).toList tokens [] ∧
      IsUndisturbed dialect.catalog dialect.placeholders tokens := by
  obtain ⟨alone, _, _, enclosed⟩ := kept
  have builtins := HasBuiltins.new symbols options now
  obtain ⟨tokens, parts, reads, derives, resolves, same⟩ := new_exists_parts alone
  have written : source tokens = (dialect.quoteIdentifier name).toList := reads.source_eq
  have callFree : CallFree dialect.catalog tokens := builtins.callFree_of_kept symbols reads alone
  rw [callFree.evaluateParts derives, written] at same
  have placeholderFree := (builtins.literals.discernible now).free_of_kept same reads
  obtain ⟨whole, partsCall, readsCall, derivesCall, resolvesCall, _⟩ := new_exists_parts enclosed
  have readsCall' : Reads ("AFUpper".toList ++ '(' :: ((dialect.quoteIdentifier name).toList ++ [')']))
      whole [] := by
    rw [← toList_call]
    exact readsCall
  obtain ⟨piece, noComment⟩ := derivesCall.enclosed reads derives.balanced callName_standsBefore
    (by rw [String.ofList_toList]; exact Catalog.containsName_of_resolve (resolve_upper dialect))
    (fun arity f found => arity_of_upper (by rw [String.ofList_toList] at found; exact found))
    readsCall' resolvesCall
  exact ⟨tokens, reads, piece, callFree, placeholderFree, noComment⟩

/-! ## All engines -/

/-- Every engine's translator keeps the names in which nothing stands that a query is read by. -/
theorem Translator.keepsQuoted_of_isInert {dialect : Dialect} {options : Options} {now : DateTime}
    {name : String} (deep : 0 < options.maxDepth) (inert : IsInert name) :
    (Translator.new dialect options now).KeepsQuoted name := by
  have symbols : dialect = .mySql ∨ dialect = .sqlServer →
      (Translator.new dialect options now).KeepsQuoted name := by
    intro symbols
    obtain ⟨tokens, reads, undisturbed⟩ :=
      (inert.quoteIdentifier symbols).exists_isUndisturbed dialect.catalog dialect.placeholders
    exact keepsQuoted_of_isUndisturbed deep reads undisturbed
  cases dialect with
  | postgres => exact keepsQuoted_of_span deep (.inl rfl) name
  | sqlite => exact keepsQuoted_of_span deep (.inr rfl) name
  | mySql => exact symbols (.inl rfl)
  | sqlServer => exact symbols (.inr rfl)

/-- A new translator keeps a name that it has quoted exactly if its quotes open spans or the quoted name is
read as it stands. -/
theorem keepsQuoted_new_iff {dialect : Dialect} {options : Options} {now : DateTime} {name : String}
    (deep : 0 < options.maxDepth) :
    (Translator.new dialect options now).KeepsQuoted name ↔
      dialect = .postgres ∨ dialect = .sqlite ∨
        ∃ tokens, Reads (dialect.quoteIdentifier name).toList tokens [] ∧
          IsUndisturbed dialect.catalog dialect.placeholders tokens := by
  constructor
  · intro kept
    cases dialect with
    | postgres => exact .inl rfl
    | sqlite => exact .inr (.inl rfl)
    | mySql => exact .inr (.inr (kept.exists_isUndisturbed (.inl rfl)))
    | sqlServer => exact .inr (.inr (kept.exists_isUndisturbed (.inr rfl)))
  · rintro (rfl | rfl | ⟨tokens, reads, undisturbed⟩)
    · exact Translator.keepsQuoted_of_span deep (.inl rfl) name
    · exact Translator.keepsQuoted_of_span deep (.inr rfl) name
    · exact Translator.keepsQuoted_of_isUndisturbed deep reads undisturbed

/-- Between brackets, parentheses that balance are kept, a comma in them and a delimiter by itself. -/
theorem keepsQuoted_new_of_bracketed :
    let now : DateTime := ⟨⟨2000, 1, 1, by decide⟩, ⟨0, 0, 0, 0, by decide⟩⟩
    let options := Options.defaults .sqlServer
    let tokens : List Token :=
      [.symbol '[', .symbol '#', .opening, .number ['1'], .comma, .number ['2'], .closing, .symbol ']']
    0 < options.maxDepth ∧ Reads (Dialect.sqlServer.quoteIdentifier "#(1,2)").toList tokens [] ∧
      IsUndisturbed Dialect.sqlServer.catalog Dialect.sqlServer.placeholders tokens ∧
      (Translator.new .sqlServer options now).KeepsQuoted "#(1,2)" := by
  intro now options tokens
  have reads : Reads (Dialect.sqlServer.quoteIdentifier "#(1,2)").toList tokens [] := by
    rw [quoteIdentifier_toList]
    exact .of_nextToken? (by rfl) <| .of_nextToken? (by rfl) <| .of_nextToken? (by rfl) <|
      .of_nextToken? (by rfl) <| .of_nextToken? (by rfl) <| .of_nextToken? (by rfl) <|
      .of_nextToken? (by rfl) <| .of_nextToken? (by rfl) <| .nil []
  have inside : Balanced [.number ['1'], .comma, .number ['2']] :=
    .other nofun nofun <| .other nofun nofun <| .other nofun nofun .nil
  have undisturbed : IsUndisturbed Dialect.sqlServer.catalog Dialect.sqlServer.placeholders tokens := by
    refine ⟨?_, .of_no_word fun letters => by simp [tokens], ?_, by decide⟩
    · exact .other (by decide) (by decide) (by decide) <|
        .other (by decide) (by decide) (by decide) <| .group inside <|
        .other (by decide) (by decide) (by decide) .nil
    · exact .cons (by decide) (.cons_of_not_mem (by decide) _)
  have deep : 0 < options.maxDepth := by decide
  exact ⟨deep, reads, undisturbed,
    (keepsQuoted_new_iff deep).2 (.inr (.inr ⟨tokens, reads, undisturbed⟩))⟩

/-- A quote in a name opens a span for the engines whose quotes are symbols, and the span never ends. -/
theorem quoted_name_rejected :
    let now : DateTime := ⟨⟨2000, 1, 1, by decide⟩, ⟨0, 0, 0, 0, by decide⟩⟩
    ((Translator.new .mySql (Options.defaults .mySql) now).translate "\x60it's\x60").1 =
        .error (.malformed (.unterminatedLiteral '\'') 3 "'s\x60") ∧
      ¬ (Translator.new .mySql (Options.defaults .mySql) now).KeepsQuoted "it's" ∧
      ((Translator.new .sqlServer (Options.defaults .sqlServer) now).translate "[it's]").1 =
        .error (.malformed (.unterminatedLiteral '\'') 3 "'s]") ∧
      ¬ (Translator.new .sqlServer (Options.defaults .sqlServer) now).KeepsQuoted "it's" := by
  intro now
  have rejects : ∀ {dialect : Dialect} {e : Query.Error},
      expandQuery dialect.catalog 64 (dialect.quoteIdentifier "it's").toList = .error e →
        ((Translator.new dialect (Options.defaults dialect) now).translate
          (dialect.quoteIdentifier "it's")).1 = .error e :=
    Query.translate_fst_eq_error_iff.2
  have mySql := @rejects .mySql (.malformed (.unterminatedLiteral '\'') 3 "'s\x60") (by decide +kernel)
  have sqlServer := @rejects .sqlServer (.malformed (.unterminatedLiteral '\'') 3 "'s]") (by decide +kernel)
  refine ⟨mySql, fun kept => ?_, sqlServer, fun kept => ?_⟩
  · cases mySql.symm.trans (congrArg Prod.fst kept.1)
  · cases sqlServer.symm.trans (congrArg Prod.fst kept.1)

end PortableSql
