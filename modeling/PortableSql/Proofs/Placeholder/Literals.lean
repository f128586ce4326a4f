import PortableSql.Proofs.Query.Seams

/-!
# Literals in holes

What the values that fill the holes of a text make of it where they are literals, a digit or a quoted text.
No value begins or ends a word that is a name, and none reaches beyond its own quotes. So where a text is
scanned to its end, the filled one is scanned to the same depth (`exists_run_filled`), and is found to hold
no placeholder: one that it held would have been a hole before.
-/
namespace PortableSql.Placeholder

open Calendar Query Text

/-- A digit, or a text in quotes without quotes in it. -/
inductive IsLiteral : List Char → Prop
  | digit {c : Char} (digit : isDigit c = true) : IsLiteral [c]
  | quoted {body : List Char} (plain : '\'' ∉ body) : IsLiteral ('\'' :: (body ++ ['\'']))

/-- Whether a name has letters alone between its delimiters. -/
def isLetterName (name : String) : Bool :=
  isName name && name.toList.all fun c => c == delimiter || isLetter c

/-- Names of letters with literals as values. -/
structure LiteralNames (known : String → Bool) (value : String → String) : Prop where
  named : ∀ name, known name = true → isLetterName name = true
  literal : ∀ name, known name = true → IsLiteral (value name).toList

/-- All calls of such functions are forbidden, and the placeholders with known names. -/
def forbiddenNames (calls : List Char → Bool) (known : String → Bool) : Forbidden :=
  ⟨calls, fun word => known (delimited word)⟩

section
variable {calls : List Char → Bool} {known : String → Bool} {value : String → String}

theorem isName_of_isLetterName {name : String} (letters : isLetterName name = true) :
    isName name = true :=
  ((Bool.and_eq_true _ _).mp letters).1

theorem letters_of_isLetterName {word : List Char} (letters : isLetterName (delimited word) = true) :
    word.all isNameChar = true ∧ allLetters word = true := by
  rw [isLetterName, Bool.and_eq_true, List.all_eq_true] at letters
  obtain ⟨named, letters⟩ := letters
  rw [delimited, isName_between, Bool.and_eq_true] at named
  refine ⟨named.2, List.all_eq_true.2 fun c member => ?_⟩
  have letter := letters c (by simp [delimited, member])
  rw [Bool.or_eq_true, beq_iff_eq] at letter
  refine letter.resolve_left ?_
  rintro rfl
  cases List.all_eq_true.1 named.2 _ member

/-- The scan of a literal. -/
theorem IsLiteral.run {text : List Char} (literal : IsLiteral text) (forbidden : Forbidden)
    (place : Place) :
    ∃ after : Place, (Scan.code place).run forbidden text = some (.code after) ∧
      after.depth = place.depth ∧ after.dash = false ∧
      (allLetters after.word = false ∨ after.word = [] ∧ after.mark = false) := by
  cases literal with
  | @digit c digit =>
    have inside : isNameChar c = true := by rw [isNameChar, digit, Bool.or_true]
    have mixed : allLetters [c] = false := by simp [allLetters, isLetter_of_isDigit digit]
    exact ⟨_, Scan.run_word (by simpa using inside) (by simp), rfl, rfl,
      .inl (allLetters_append_eq_false.2 (.inr mixed))⟩
  | @quoted body plain =>
    have inside : QuotedBody '\'' body := by
      induction body with
      | nil => exact .nil
      | cons c body ih =>
        obtain ⟨different, plain⟩ := not_or.1 (mt List.mem_cons.2 plain)
        exact .other (Ne.symm different) (ih plain)
    have stands : (Token.quoted ('\'' :: (body ++ ['\'']))).StandsBefore none :=
      .quoted rfl inside (by simp)
    exact ⟨_, Scan.run_token stands, rfl, rfl, .inr ⟨rfl, rfl⟩⟩

/-- No name is completed behind a place: neither by what is left of its word, nor by what follows. -/
def NoneCompleted (known : String → Bool) (place : Place) (tokens : List Token) : Prop :=
  place.mark = true → ∀ front behind, tokens = front ++ .symbol delimiter :: behind →
    known (delimited (place.word ++ source front)) = false

/-- Behind a token that is kept no name is completed. -/
private theorem NoneCompleted.behind (names : LiteralNames known value) {place : Place} {token : Token}
    {text : List Char} {tokens : List Token} (reads : Reads text (token :: tokens) [])
    (noHole : ∀ name behind, token :: tokens = .symbol delimiter :: name :: .symbol delimiter :: behind →
      known (nameOf name) = false)
    (none : NoneCompleted known place (token :: tokens)) :
    NoneCompleted known (place.behind token) tokens := by
  intro marked front behind shape
  obtain ⟨rest, _, stands, later⟩ := Reads.cons_iff.1 reads
  by_cases isDelimiter : token = .symbol delimiter
  · subst isDelimiter
    by_contra unknown
    have isKnown := eq_true_of_ne_false unknown
    have whole : source front ++ delimiter :: source behind = rest := by
      rw [← later.source_eq, shape, source_append]
      rfl
    have read : token? (source front ++ delimiter :: source behind) = _ :=
      token?_of_isName (isName_of_isLetterName (names.named _ isKnown))
    rw [whole] at read
    obtain ⟨name, behind, rfl, same⟩ := exists_token_of_token? later read
    have known' := noHole name behind rfl
    rw [nameOf, delimited, ← same] at known'
    exact unknown known'
  · -- the token goes on with the word, and what follows it is what followed both
    have same : (place.behind token).mark = place.mark ∧
        (place.behind token).word = place.word ++ token.text := by
      cases token with
      | number | word =>
        rw [Place.behind] at marked ⊢
        split at marked
        · rename_i name
          rw [if_pos name]
          exact ⟨rfl, rfl⟩
        · cases marked
      | symbol c =>
        have other : c ≠ delimiter := fun same => isDelimiter (by rw [same])
        simp [Place.behind, Place.behindSymbol, other] at marked
      | _ => cases marked
    rw [same.1] at marked
    have completed := none marked (token :: front) behind (by rw [shape]; rfl)
    rwa [source_cons, ← List.append_assoc, ← same.2] at completed

/-- The value of a placeholder is scanned to a place like the one behind the placeholder, and completes no
name there. -/
private theorem LiteralNames.run_value (names : LiteralNames known value) {name : Token}
    (isKnown : known (nameOf name) = true) {place actual : Place} (covers : place.Covers 0 actual) :
    ∃ next : Place,
      (Scan.code actual).run (forbiddenNames calls known) (value (nameOf name)).toList = some (.code next) ∧
      (((place.behind (.symbol delimiter)).behind name).behind (.symbol delimiter)).Covers 0 next ∧
      ∀ tokens, NoneCompleted known next tokens := by
  obtain ⟨next, runs, level, clear, ends⟩ :=
    (names.literal _ isKnown).run (forbiddenNames calls known) actual
  refine ⟨next, runs, ⟨?_, ?_, fun dashed => ?_⟩, ?_⟩
  · have inside := (letters_of_isLetterName (names.named _ isKnown)).1
    have sameDepth : depthBehind place.depth name = place.depth := by
      apply depthBehind_of_ne
      · rintro rfl
        simp [Token.text, isNameChar, isNameStart, isDigit] at inside
      · rintro rfl
        simp [Token.text, isNameChar, isNameStart, isDigit] at inside
    rw [level, covers.deeper, Place.depth_behind, Place.depth_behind, Place.depth_behind]
    exact congrArg (· + 0) sameDepth.symm
  · rcases ends with mixed | ⟨empty, _⟩
    · exact .inr mixed
    · exact .inl empty
  · rw [clear] at dashed
    cases dashed
  · intro tokens marked front _ _
    rcases ends with mixed | ⟨_, unmarked⟩
    · by_contra unknown
      have letters := (letters_of_isLetterName (names.named _ (eq_true_of_ne_false unknown))).2
      rw [allLetters_append_eq_false.2 (.inl mixed)] at letters
      cases letters
    · rw [unmarked] at marked
      cases marked

/-- The scan of a text with its holes filled, from any place that is like the one where the text is. -/
private theorem exists_run_pieces (names : LiteralNames known value)
    (portable : ∀ word, calls word = true → allLetters word = true) {text : List Char} {tokens : List Token}
    {place actual after : Place} (reads : Reads text tokens [])
    (runs : place.runTokens (.ofCalls calls) tokens = some after) (covers : place.Covers 0 actual)
    (none : NoneCompleted known actual tokens) :
    ∃ after' : Place, (Scan.code actual).run (forbiddenNames calls known)
        ((pieces known tokens).flatMap (Piece.fill value)) = some (.code after') ∧
      after.Covers 0 after' := by
  induction length : tokens.length using Nat.strong_induction_on generalizing text tokens place actual with
  | _ n ih =>
    cases tokens with
    | nil =>
      cases runs
      exact ⟨actual, rfl, covers⟩
    | cons token tokens =>
      by_cases hole : ∃ name behind, token :: tokens =
          .symbol delimiter :: name :: .symbol delimiter :: behind ∧ known (nameOf name) = true
      · obtain ⟨name, behind, shape, isKnown⟩ := hole
        obtain ⟨rfl, rfl⟩ := List.cons.inj shape
        obtain ⟨_, _, _, reads⟩ := Reads.cons_iff.1 reads
        obtain ⟨_, _, _, reads⟩ := Reads.cons_iff.1 reads
        obtain ⟨_, _, _, reads⟩ := Reads.cons_iff.1 reads
        obtain ⟨_, runs⟩ := Place.runTokens_cons.1 runs
        obtain ⟨_, runs⟩ := Place.runTokens_cons.1 runs
        obtain ⟨_, runs⟩ := Place.runTokens_cons.1 runs
        obtain ⟨next, first, covers', none'⟩ := names.run_value isKnown covers
        obtain ⟨after', last, covers'⟩ := ih behind.length (by simp [← length]; omega) reads runs covers'
          (none' behind) rfl
        refine ⟨after', ?_, covers'⟩
        rw [pieces, if_pos ⟨rfl, rfl, isKnown⟩, List.flatMap_cons, Piece.fill, Scan.run_append, first,
          Option.bind_some, last]
      · have noHole : ∀ name behind, token :: tokens =
            .symbol delimiter :: name :: .symbol delimiter :: behind → known (nameOf name) = false := by
          intro name behind shape
          by_contra unknown
          exact hole ⟨name, behind, shape, eq_true_of_ne_false unknown⟩
        obtain ⟨_, rfl, stands, later⟩ := Reads.cons_iff.1 reads
        obtain ⟨admitted, runs⟩ := Place.runTokens_cons.1 runs
        have within : (forbiddenNames calls known).Within (.ofCalls calls) := fun word called =>
          ⟨portable word called, called⟩
        have admitted' : actual.admits (forbiddenNames calls known) token = true := by
          refine covers.admits within admitted ?_
          rintro rfl marked
          have completed := none marked [] tokens rfl
          rwa [source_nil, List.append_nil] at completed
        obtain ⟨after', last, covers'⟩ := ih tokens.length (by simp [← length]) later runs
          (covers.behind admitted) (none.behind names reads noHole) rfl
        refine ⟨after', ?_, covers'⟩
        rw [pieces_cons noHole, List.flatMap_cons, Piece.fill, Scan.run_append, Scan.run_token stands,
          if_pos admitted', Option.bind_some, last]

/-- A text that is scanned to its end is scanned to its end with its holes filled, and no known name is left
between delimiters. -/
theorem exists_run_filled (names : LiteralNames known value)
    (portable : ∀ word, calls word = true → allLetters word = true) {text : List Char} {after : Place}
    (runs : (Scan.code ⟨0, [], false, false⟩).run (.ofCalls calls) text = some (.code after)) :
    ∃ after' : Place, (Scan.code ⟨0, [], false, false⟩).run (forbiddenNames calls known)
        (filled known value text) = some (.code after') ∧ after'.depth = after.depth := by
  obtain ⟨tokens, reads, runs⟩ := Scan.exists_reads_of_run runs
  obtain ⟨after', runs, covers⟩ :=
    exists_run_pieces names portable reads runs ⟨rfl, .inl rfl, id⟩ (fun marked => by cases marked)
  refine ⟨after', ?_, covers.deeper⟩
  rw [filled, lex_of_reads reads, List.append_nil]
  exact runs

end

/-! ## Registries -/

/-- A value that is read as a literal, whenever that is. -/
def Value.IsLiteral : Value → Prop
  | .fixed text => Placeholder.IsLiteral text.toList
  | .computed value => (∀ count now, Placeholder.IsLiteral (value.compute count now).toList) ∧
      ∀ text ∈ value.memo, Placeholder.IsLiteral text.toList

theorem Value.IsLiteral.read {value : Value} (literal : value.IsLiteral) (now : DateTime) :
    Placeholder.IsLiteral (value.read now).1.toList ∧ (value.read now).2.IsLiteral := by
  cases value with
  | fixed text => exact ⟨literal, literal⟩
  | computed value =>
    obtain ⟨compute, count, memo⟩ := value
    obtain ⟨computed, kept⟩ := literal
    cases memo with
    | some text => exact ⟨kept text rfl, computed, kept⟩
    | none =>
      refine ⟨computed _ _, computed, fun text same => ?_⟩
      rw [← Option.some.inj same]
      exact computed _ _

theorem Value.IsLiteral.reset {value : Value} (literal : value.IsLiteral) : value.reset.IsLiteral := by
  cases value with
  | fixed text => exact literal
  | computed value => exact ⟨literal.1, fun _ same => by cases same⟩

namespace Registry

/-- All names have letters alone, and all values are read as literals. -/
def HoldsLiterals (registry : Registry) : Prop :=
  ∀ name value, registry.table.get? name = some value → isLetterName name = true ∧ value.IsLiteral

variable {registry after : Registry} {now : DateTime} {name text : String}

theorem HoldsLiterals.empty : Registry.empty.HoldsLiterals :=
  nofun

theorem HoldsLiterals.insert (holds : registry.HoldsLiterals) {value : Value}
    (letters : isLetterName name = true) (literal : value.IsLiteral) :
    (registry.insert name value).HoldsLiterals := by
  intro other kept found
  by_cases same : other = name
  · subst same
    rw [Registry.insert, Table.get?_insert_self] at found
    cases found
    exact ⟨letters, literal⟩
  · rw [Registry.insert, Table.get?_insert_of_ne _ same] at found
    exact holds other kept found

theorem HoldsLiterals.resolve (holds : registry.HoldsLiterals)
    (resolves : registry.resolve now name = some (text, after)) : after.HoldsLiterals := by
  obtain ⟨value, found, _, rfl⟩ := resolve_eq_some_iff.1 resolves
  obtain ⟨letters, literal⟩ := holds name value found
  exact holds.insert letters (literal.read now).2

theorem HoldsLiterals.readAll (holds : registry.HoldsLiterals) (names : List String) :
    (registry.readAll now names).HoldsLiterals := by
  induction names generalizing registry with
  | nil => exact holds
  | cons name names ih =>
    rw [Registry.readAll]
    split
    · rename_i resolves
      exact ih (holds.resolve resolves)
    · exact ih holds

theorem HoldsLiterals.resolveAll (holds : registry.HoldsLiterals) :
    (registry.resolveAll now).2.HoldsLiterals := by
  unfold Registry.resolveAll
  refine List.foldlRecOn
    (motive := fun state : List (String × String) × Registry => state.2.HoldsLiterals)
    registry.names _ holds ?_
  rintro ⟨rows, registry⟩ holds name _
  dsimp only
  split
  · rename_i resolves
    exact holds.resolve resolves
  · exact holds

theorem HoldsLiterals.reset (holds : registry.HoldsLiterals) : registry.reset.HoldsLiterals := by
  intro name value found
  rw [Registry.reset, Table.get?_mapValues, Option.map_eq_some_iff] at found
  obtain ⟨kept, found, rfl⟩ := found
  obtain ⟨letters, literal⟩ := holds name kept found
  exact ⟨letters, literal.reset⟩

theorem exists_of_contains (isKnown : registry.contains name = true) :
    ∃ value, registry.table.get? name = some value :=
  Option.isSome_iff_exists.1 isKnown

theorem HoldsLiterals.literalNames (holds : registry.HoldsLiterals) (now : DateTime) :
    LiteralNames registry.contains (registry.textAt now) where
  named name isKnown := by
    obtain ⟨value, found⟩ := exists_of_contains isKnown
    exact (holds name value found).1
  literal name isKnown := by
    obtain ⟨value, found⟩ := exists_of_contains isKnown
    rw [textAt, found]
    exact ((holds name value found).2.read now).1

/-- No literal begins with a delimiter. -/
theorem HoldsLiterals.discernible (holds : registry.HoldsLiterals) (now : DateTime) :
    registry.Discernible now where
  named name isKnown := isName_of_isLetterName ((holds.literalNames now).named name isKnown)
  begins name value after resolves := by
    obtain ⟨kept, found, rfl, _⟩ := resolve_eq_some_iff.1 resolves
    have literal := ((holds name kept found).2.read now).1
    generalize same : ((kept.read now).1).toList = letters at literal
    cases literal with
    | digit digit =>
      refine ⟨_, [], same, ?_⟩
      rintro rfl
      cases digit
    | quoted => exact ⟨'\'', _, same, by decide⟩

/-- Substitution fills the holes of a text with literals, and registers nothing. -/
theorem HoldsLiterals.substituteText (holds : registry.HoldsLiterals) (now : DateTime)
    (text : List Char) :
    (registry.substituteText now text).1 = filled registry.contains (registry.textAt now) text ∧
      (registry.substituteText now text).2.contains = registry.contains ∧
      (registry.substituteText now text).2.HoldsLiterals := by
  rw [substituteText_eq (holds.discernible now).named]
  exact ⟨rfl, contains_readAll _ _ _, holds.readAll _⟩

end Registry

end PortableSql.Placeholder
