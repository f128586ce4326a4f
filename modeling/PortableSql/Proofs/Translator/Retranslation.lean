import PortableSql.Proofs.Dialect.Vocabulary
import PortableSql.Proofs.Translator.Sessions
import PortableSql.Proofs.Translator.Translation

/-!
# Translating what has been translated

What a translator of an engine that quotes no names as spans gives for a query without comments has balanced
quotes and parentheses, and no placeholder is left in it. It is translated to itself exactly if it holds no
portable call (`retranslates_iff`). Of all that meets in it, one thing makes such a call: a number word of the
query goes on over a point to a name before a parenthesis, and in the result another word ends where the number
began.
-/
namespace PortableSql

open Calendar Placeholder Query Text

/-- The requests that add functions or placeholders. -/
def Request.registers : Request → Bool
  | .registerFunction _ _ _ | .registerPlaceholder _ _ => true
  | _ => false

/-- No number of a query that ends in a point and the name of a function stands before a parenthesis. -/
def NumbersApart (catalog : Catalog) (query : String) : Prop :=
  ∀ tokens front name, Reads query.toList tokens [] →
    [.number (front ++ '.' :: name), .opening] <:+: tokens →
      catalog.containsName (String.ofList name) = false

namespace Translator

/-- The translators of an engine to which no function and no placeholder has been added. -/
inductive IsBuiltin (dialect : Dialect) : Translator → Prop
  | new (options : Options) (now : DateTime) : IsBuiltin dialect (Translator.new dialect options now)
  | step {translator : Translator} (before : IsBuiltin dialect translator) (encoders : Encoders)
      (request : Request) (adds : request.registers = false) :
      IsBuiltin dialect (translator.step encoders request).2

variable {dialect : Dialect} {translator after other : Translator} {query sql : String}

/-! ## What these translators have in common -/

/-- The functions and the names of the placeholders of an engine, with literals as values. -/
structure HasBuiltins (dialect : Dialect) (translator : Translator) : Prop where
  engine : translator.dialect = dialect
  functions : translator.functions = dialect.catalog
  names : translator.placeholders.contains = dialect.placeholders.contains
  literals : translator.placeholders.HoldsLiterals

theorem HasBuiltins.new (symbols : dialect = .mySql ∨ dialect = .sqlServer) (options : Options)
    (now : DateTime) : (Translator.new dialect options now).HasBuiltins dialect :=
  ⟨rfl, rfl, rfl, Dialect.holdsLiterals_placeholders symbols⟩

/-- Placeholders may be read and reset. -/
theorem HasBuiltins.replace (builtins : translator.HasBuiltins dialect) {registry : Placeholder.Registry}
    (names : registry.contains = translator.placeholders.contains) (literals : registry.HoldsLiterals) :
    HasBuiltins dialect { translator with placeholders := registry } :=
  ⟨builtins.engine, builtins.functions, names.trans builtins.names, literals⟩

theorem HasBuiltins.translate (builtins : translator.HasBuiltins dialect)
    (translates : translator.translate query = (.ok sql, after)) : after.HasBuiltins dialect := by
  obtain ⟨text, _, _, rfl⟩ := translate_ok_iff.1 translates
  obtain ⟨_, names, literals⟩ := builtins.literals.substituteText translator.now text
  exact builtins.replace names literals

theorem HasBuiltins.step (symbols : dialect = .mySql ∨ dialect = .sqlServer)
    (builtins : translator.HasBuiltins dialect) {encoders : Encoders} {request : Request}
    (adds : request.registers = false) :
    (translator.step encoders request).2.HasBuiltins dialect := by
  cases request with
  | translate query =>
    cases result : (translator.translate query).1 with
    | ok sql => exact builtins.translate (Prod.ext result rfl)
    | error e =>
      show (translator.translate query).2.HasBuiltins dialect
      rw [translate_of_error result]
      exact builtins
  | placeholders =>
    exact builtins.replace (Registry.contains_resolveAll _ _) builtins.literals.resolveAll
  | resolvePlaceholder name =>
    simp only [Translator.step, Translator.resolvePlaceholder]
    cases resolves : translator.placeholders.resolve translator.now name with
    | none => exact builtins
    | some next =>
      exact builtins.replace (Registry.contains_of_resolve resolves) (builtins.literals.resolve resolves)
  | refresh => exact builtins.replace (Registry.contains_reset _) builtins.literals.reset
  | withClock now =>
    have fresh := HasBuiltins.new symbols translator.options now
    rw [← builtins.engine] at fresh ⊢
    exact fresh
  | registerFunction => cases adds
  | registerPlaceholder => cases adds
  | registerTemplate | setClock => exact ⟨builtins.engine, builtins.functions, builtins.names, builtins.literals⟩
  | _ => exact builtins

theorem IsBuiltin.hasBuiltins (symbols : dialect = .mySql ∨ dialect = .sqlServer)
    (builtin : translator.IsBuiltin dialect) : translator.HasBuiltins dialect := by
  induction builtin with
  | new options now => exact .new symbols options now
  | step _ _ _ adds ih => exact ih.step symbols adds

/-! ## What they give -/

/-- The result is scanned to its end where the query is tame for some calls: it balances, holds no placeholder
and opens none of these calls. -/
private theorem HasBuiltins.exists_reads (symbols : dialect = .mySql ∨ dialect = .sqlServer)
    (builtins : translator.HasBuiltins dialect) (calls : List Char → Bool)
    (known : ∀ word, calls word = true → dialect.catalog.containsName (String.ofList word) = true)
    (tame : ∀ tokens, Reads query.toList tokens [] → Tame calls tokens)
    (translates : translator.translate query = (.ok sql, after)) :
    ∃ tokens, Reads sql.toList tokens [] ∧ Balanced tokens ∧ PlaceholderFree dialect.placeholders tokens ∧
      ∀ letters, [.word letters, .opening] <:+: tokens → calls letters = false := by
  obtain ⟨whole, parts, reads, derives, resolves, same⟩ := exists_parts translates
  rw [builtins.functions] at derives resolves same
  have smooth := Dialect.smoothCalls_catalog symbols known
  have start : Ready calls ⟨0, [], false, false⟩ query.toList whole := smooth.ready_of_loose (.inl rfl) rfl
  obtain ⟨_, runs, level⟩ := run_evaluateParts smooth derives resolves reads (tame _ reads) start
  have names := builtins.literals.literalNames translator.now
  have portable : ∀ word, calls word = true → allLetters word = true := fun word called =>
    ((Bool.and_eq_true _ _).mp (smooth.portable word called)).1
  obtain ⟨_, runs, level'⟩ := exists_run_filled names portable runs
  rw [← (builtins.literals.substituteText _ _).1, same] at runs
  obtain ⟨tokens, reads, runs⟩ := Scan.exists_reads_of_run runs
  refine ⟨tokens, reads, Place.closes_of_runTokens runs (level'.trans level), ?_,
    Place.calls_of_runTokens reads runs fun goesOn => absurd rfl goesOn⟩
  intro token triple
  rw [← builtins.names]
  exact Place.marked_of_runTokens
    (fun _ isKnown => (letters_of_isLetterName (names.named _ isKnown)).1) reads runs token triple

/-- A query that is translated to itself holds no call: else the first one would be seen in the result. -/
theorem HasBuiltins.callFree_of_kept (symbols : dialect = .mySql ∨ dialect = .sqlServer)
    (builtins : translator.HasBuiltins dialect) {tokens : List Token} (reads : Reads query.toList tokens [])
    (kept : translator.translate query = (.ok query, after)) : CallFree dialect.catalog tokens := by
  obtain ⟨_, parts, reads', derives, resolves, same⟩ := exists_parts kept
  obtain rfl := reads.unique reads'
  rw [builtins.functions] at derives resolves same
  rcases derives.first_call resolves with
    free | ⟨front, letters, rest, f, texts, behind, rfl, overload, value⟩
  · exact free
  · obtain ⟨later, lead⟩ := f.expandText_lead texts
    have apart := (Dialect.beginsApart_of_resolve symbols overload).not_begins
      (Dialect.resolve_catalog_eq_some overload).1 ('(' :: source rest)
    have written : query.toList = source front ++ (letters ++ '(' :: source rest) := by
      rw [← reads.source_eq]
      simp [Token.text]
    rw [value, lead, List.append_assoc] at same
    exact absurd (same.trans written) ((builtins.literals.discernible translator.now).substituteText_ne
      PortableFunction.not_mem_lead.2 apart)

/-- The result of translating a query without comments balances and holds no placeholder. All translators
of the engine translate it to itself exactly if it holds no portable call, and so it is unless the query holds
a number that ends in a point and the name of a function before a parenthesis. -/
theorem retranslates_iff (symbols : dialect = .mySql ∨ dialect = .sqlServer)
    (builtin : translator.IsBuiltin dialect) (noDashes : ¬ ['-', '-'] <:+: query.toList)
    (translates : translator.translate query = (.ok sql, after)) :
    ∃ tokens, Reads sql.toList tokens [] ∧ Balanced tokens ∧ PlaceholderFree dialect.placeholders tokens ∧
      (∀ other : Translator, other.IsBuiltin dialect →
        (other.translate sql = (.ok sql, other) ↔ CallFree dialect.catalog tokens)) ∧
      (NumbersApart dialect.catalog query →
        CallFree dialect.catalog tokens ∧ after.translate sql = (.ok sql, after)) := by
  have builtins := builtin.hasBuiltins symbols
  have noComment : ∀ tokens, Reads query.toList tokens [] → ∀ token ∈ tokens, token.isComment = false :=
    fun _ reads => reads.not_isComment noDashes
  obtain ⟨tokens, reads, balanced, settled, _⟩ := builtins.exists_reads symbols (fun _ => false)
    nofun (fun _ reads => ⟨noComment _ reads, fun _ _ _ => rfl⟩) translates
  have kept : ∀ other : Translator, other.HasBuiltins dialect → CallFree dialect.catalog tokens →
      other.translate sql = (.ok sql, other) := by
    intro other same free
    rw [← same.functions] at free
    refine translate_of_plain reads balanced free fun token triple => ?_
    rw [same.names]
    exact settled token triple
  refine ⟨tokens, reads, balanced, settled, fun other same => ⟨fun again => ?_, fun free => ?_⟩, ?_⟩
  · exact (same.hasBuiltins symbols).callFree_of_kept symbols reads again
  · exact kept other (same.hasBuiltins symbols) free
  · intro apart
    obtain ⟨_, reads', _, _, free⟩ := builtins.exists_reads symbols
      (fun word => dialect.catalog.containsName (String.ofList word)) (fun _ => id)
      (fun tokens reads => ⟨noComment _ reads, fun front name => apart tokens front name reads⟩) translates
    obtain rfl := reads.unique reads'
    exact ⟨free, kept after (builtins.translate translates) free⟩

private theorem reads_number_before_group :
    Reads "1.5(AFUpper(x))#TRUE#".toList
      [.number ['1', '.', '5'], .opening, .word ['A', 'F', 'U', 'p', 'p', 'e', 'r'], .opening, .word ['x'],
        .closing, .closing, .symbol '#', .word ['T', 'R', 'U', 'E'], .symbol '#'] [] := by
  have letters : "1.5(AFUpper(x))#TRUE#".toList =
      ['1', '.', '5', '(', 'A', 'F', 'U', 'p', 'p', 'e', 'r', '(', 'x', ')', ')', '#', 'T', 'R', 'U', 'E',
        '#'] := by
    decide +kernel
  rw [letters]
  exact .of_nextToken? (by rfl) <| .of_nextToken? (by rfl) <| .of_nextToken? (by rfl) <|
    .of_nextToken? (by rfl) <| .of_nextToken? (by rfl) <| .of_nextToken? (by rfl) <|
    .of_nextToken? (by rfl) <| .of_nextToken? (by rfl) <| .of_nextToken? (by rfl) <|
    .of_nextToken? (by rfl) <| .nil []

/-- A number with a point before a parenthesis, a call in the parentheses and a placeholder behind them. -/
theorem retranslates_number_before_group :
    let translator := Translator.new .mySql (Options.defaults .mySql)
      ⟨⟨2000, 1, 1, by decide⟩, ⟨0, 0, 0, 0, by decide⟩⟩
    translator.IsBuiltin .mySql ∧ ¬ ['-', '-'] <:+: "1.5(AFUpper(x))#TRUE#".toList ∧
      NumbersApart Dialect.mySql.catalog "1.5(AFUpper(x))#TRUE#" ∧
      ∃ after, translator.translate "1.5(AFUpper(x))#TRUE#" = (.ok "1.5(upper(x))1", after) ∧
        after.translate "1.5(upper(x))1" = (.ok "1.5(upper(x))1", after) := by
  have noDashes : ¬ ['-', '-'] <:+: "1.5(AFUpper(x))#TRUE#".toList := by decide +kernel
  have result : ((Translator.new .mySql (Options.defaults .mySql)
      ⟨⟨2000, 1, 1, by decide⟩, ⟨0, 0, 0, 0, by decide⟩⟩).translate
        "1.5(AFUpper(x))#TRUE#").1.toOption = some "1.5(upper(x))1" := by
    decide +kernel
  have apart : NumbersApart Dialect.mySql.catalog "1.5(AFUpper(x))#TRUE#" := by
    intro tokens front name reads pair
    obtain rfl := reads.unique reads_number_before_group
    have number : front ++ '.' :: name = ['1', '.', '5'] := by
      have member := pair.subset List.mem_cons_self
      simpa using member
    have digit : name = ['5'] := by
      rcases front with _ | ⟨a, _ | ⟨b, _ | ⟨c, front⟩⟩⟩ <;> simp_all
    by_contra known
    have looks := Dialect.looksPortable_of_containsName (.inl rfl) (eq_true_of_ne_false known)
    rw [digit] at looks
    cases looks
  intro translator
  have translates : translator.translate "1.5(AFUpper(x))#TRUE#" = (.ok "1.5(upper(x))1", _) :=
    Prod.ext (eq_ok_of_toOption result) rfl
  obtain ⟨_, _, _, _, _, again⟩ := retranslates_iff (.inl rfl) (.new _ _) noDashes translates
  exact ⟨.new _ _, noDashes, apart, _, translates, (again apart).2⟩

/-- The number word is cut where the value of a placeholder ends, and what is left of it is a call. -/
theorem retranslated_number_is_call :
    let translator := Translator.new .sqlServer (Options.defaults .sqlServer)
      ⟨⟨2000, 1, 1, by decide⟩, ⟨0, 0, 0, 0, by decide⟩⟩
    ¬ ['-', '-'] <:+: "x#TRUE#5.AFUpper(y)".toList ∧
      ∃ after final, translator.translate "x#TRUE#5.AFUpper(y)" = (.ok "x15.AFUpper(y)", after) ∧
        after.translate "x15.AFUpper(y)" = (.ok "x15.upper(y)", final) := by
  intro translator
  have first : (translator.translate "x#TRUE#5.AFUpper(y)").1.toOption = some "x15.AFUpper(y)" := by
    decide +kernel
  have second : ((translator.translate "x#TRUE#5.AFUpper(y)").2.translate "x15.AFUpper(y)").1.toOption =
      some "x15.upper(y)" := by
    decide +kernel
  exact ⟨by decide +kernel, _, _, Prod.ext (eq_ok_of_toOption first) rfl,
    Prod.ext (eq_ok_of_toOption second) rfl⟩

end Translator

end PortableSql
