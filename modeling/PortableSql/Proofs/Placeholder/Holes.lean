import PortableSql.Proofs.Placeholder.Substitution

/-!
# Holes

Which placeholders of a text are replaced is decided by the names that are registered, not by their
values. So the text falls into pieces that are kept and holes that are filled, and substitution fills
each hole with what its name is read as at that time (`substituteText_eq_filled`).
-/
namespace PortableSql.Query

/-- The tokens of a text up to its end, or up to a quote that is never closed, with what is left. -/
def lex (text : List Char) : List Token × List Char :=
  match text with
  | [] => ([], [])
  | c :: cs =>
    match _found : nextToken? c cs with
    | none => ([], c :: cs)
    | some (token, behind) =>
      let (tokens, unread) := lex behind
      (token :: tokens, unread)
termination_by text.length
decreasing_by
  have := nextToken?_length _found
  simp only [List.length_cons]
  omega

@[simp] theorem lex_nil : lex [] = ([], []) := by
  rw [lex]

theorem lex_of_none {c : Char} {cs : List Char} (missing : nextToken? c cs = none) :
    lex (c :: cs) = ([], c :: cs) := by
  rw [lex]
  split
  · rfl
  · rename_i found
    rw [missing] at found
    cases found

theorem lex_of_some {c : Char} {cs behind : List Char} {token : Token}
    (found : nextToken? c cs = some (token, behind)) :
    lex (c :: cs) = (token :: (lex behind).1, (lex behind).2) := by
  rw [lex]
  split
  · rename_i missing
    rw [found] at missing
    cases missing
  · rename_i found'
    cases found.symm.trans found'
    rfl

/-- A token that may stand where it is comes first. -/
theorem lex_append {token : Token} {behind : List Char} (stands : token.StandsBefore behind.head?) :
    lex (token.text ++ behind) = (token :: (lex behind).1, (lex behind).2) := by
  obtain ⟨c, cs, shape⟩ := List.exists_cons_of_ne_nil stands.text_ne_nil
  have found : nextToken? c (cs ++ behind) = some (token, behind) :=
    nextToken?_of_standsBefore stands (by rw [shape]; rfl)
  rw [shape]
  exact lex_of_some found

theorem lex_reads (text : List Char) : Reads text (lex text).1 (lex text).2 := by
  induction length : text.length using Nat.strong_induction_on generalizing text with
  | _ n ih =>
    cases text with
    | nil =>
      rw [lex_nil]
      exact .nil []
    | cons c cs =>
      cases found : nextToken? c cs with
      | none =>
        rw [lex_of_none found]
        exact .nil _
      | some next =>
        have shorter := nextToken?_length found
        rw [List.length_cons] at length
        rw [lex_of_some found]
        exact .of_nextToken? found (ih _ (by omega) next.2 rfl)

/-- A reading of a whole text is the one that is found. -/
theorem lex_of_reads {text : List Char} {tokens : List Token} (reads : Reads text tokens []) :
    lex text = (tokens, []) := by
  induction tokens generalizing text with
  | nil =>
    cases reads
    exact lex_nil
  | cons token tokens ih =>
    obtain ⟨behind, rfl, stands, later⟩ := Reads.cons_iff.1 reads
    rw [lex_append stands, ih later]

/-- A text is read up to its end, or up to where no token begins. -/
theorem lex_unread (text : List Char) :
    (lex text).2 = [] ∨ ∃ c cs, (lex text).2 = c :: cs ∧ nextToken? c cs = none := by
  fun_induction lex text with
  | case1 => exact .inl rfl
  | case2 c cs missing => exact .inr ⟨c, cs, rfl, missing⟩
  | case3 c cs token behind found tokens unread same ih =>
    rw [same] at ih
    exact ih

end PortableSql.Query

namespace PortableSql.Placeholder

open Calendar Query Text

/-- A piece of a text in which placeholders are replaced. -/
inductive Piece
  | kept (text : List Char)
  | hole (name : String)

namespace Piece

/-- The text of a piece where names have these values. -/
def fill (value : String → String) : Piece → List Char
  | .kept text => text
  | .hole name => (value name).toList

def hole? : Piece → Option String
  | .kept _ => none
  | .hole name => some name

end Piece

/-- The name with these letters between its delimiters. -/
def delimited (letters : List Char) : String :=
  String.ofList (delimiter :: (letters ++ [delimiter]))

/-- The name that a token has between delimiters. -/
def nameOf (token : Token) : String :=
  delimited token.text

/-- The pieces of a text by the names that are known. A hole is a token between two delimiters; the one
that comes first has both of them. -/
def pieces (known : String → Bool) : List Token → List Piece
  | first :: name :: last :: later =>
    if first = .symbol delimiter ∧ last = .symbol delimiter ∧ known (nameOf name) = true then
      .hole (nameOf name) :: pieces known later
    else
      .kept first.text :: pieces known (name :: last :: later)
  | tokens => tokens.map fun token => .kept token.text

/-- The names of the holes of a text, one for each hole. -/
def holes (known : String → Bool) (text : List Char) : List String :=
  (pieces known (lex text).1).filterMap Piece.hole?

/-- A text with the values of the known names in its holes. What is not closed is kept. -/
def filled (known : String → Bool) (value : String → String) (text : List Char) : List Char :=
  (pieces known (lex text).1).flatMap (Piece.fill value) ++ (lex text).2

/-- A token at which no hole begins is kept. -/
theorem pieces_cons {known : String → Bool} {token : Token} {later : List Token}
    (noHole : ∀ name behind, token :: later = .symbol delimiter :: name :: .symbol delimiter :: behind →
      known (nameOf name) = false) :
    pieces known (token :: later) = .kept token.text :: pieces known later := by
  match later with
  | [] => rfl
  | [_] => rfl
  | name :: last :: behind =>
    rw [pieces, if_neg]
    rintro ⟨rfl, rfl, isKnown⟩
    rw [noHole name behind rfl] at isKnown
    cases isKnown

theorem pieces_cons_of_ne {known : String → Bool} {token : Token} (different : token ≠ .symbol delimiter)
    (later : List Token) : pieces known (token :: later) = .kept token.text :: pieces known later :=
  pieces_cons fun _ _ same => absurd (List.cons.inj same).1 different

/-- Where the substitution reads a known name behind a delimiter, the text begins with its hole. -/
theorem pieces_of_token? {known : String → Bool} {text name behind : List Char}
    (found : token? text = some (name, behind)) (isKnown : known (String.ofList name) = true) :
    pieces known (.symbol delimiter :: (lex text).1)
        = .hole (String.ofList name) :: pieces known (lex behind).1 ∧
      (lex text).2 = (lex behind).2 := by
  obtain ⟨token, rfl, rfl, stands⟩ := token?_eq_some found
  have first : lex (token.text ++ delimiter :: behind) = _ := lex_append stands
  have second : lex (delimiter :: behind) = (.symbol delimiter :: (lex behind).1, (lex behind).2) :=
    lex_append (delimiter_standsBefore behind.head?)
  rw [first, second]
  refine ⟨?_, rfl⟩
  rw [pieces, if_pos ⟨rfl, rfl, isKnown⟩]
  rfl

/-- A token of a text is a name. -/
theorem isName_of_token? {text name behind : List Char} (found : token? text = some (name, behind)) :
    isName (String.ofList name) = true := by
  unfold token? at found
  split at found
  · rename_i c letters d behind taken dropped
    split at found
    · cases found
      have inside : ∀ d ∈ c :: letters, isNameChar d = true := by
        rw [← taken]
        exact fun d member => List.mem_takeWhile_imp member
      rw [isName_between, List.all_eq_true.2 inside]
      rfl
    · cases found
  · cases found

/-- Where it reads none, the delimiter is kept. -/
theorem pieces_of_not_token? {known : String → Bool} {text : List Char}
    (named : ∀ name, known name = true → isName name = true)
    (missing : ∀ name behind, token? text = some (name, behind) → known (String.ofList name) = false) :
    pieces known (.symbol delimiter :: (lex text).1)
      = .kept [delimiter] :: pieces known (lex text).1 := by
  apply pieces_cons
  intro name behind same
  have whole := (lex_reads text).lossless
  by_contra unknown
  have isKnown := eq_true_of_ne_false unknown
  have read : token? (name.text ++ delimiter :: (source behind ++ (lex text).2)) = _ :=
    token?_of_isName (named _ isKnown)
  have sameText : name.text ++ delimiter :: (source behind ++ (lex text).2) = text := by
    rwa [(List.cons.inj same).2, source_cons, source_cons, List.append_assoc, List.append_assoc] at whole
  rw [sameText] at read
  exact unknown (missing _ _ read)

/-! ## Reading holes -/

namespace Value

/-- A value that has been read is read as the same text at that time. -/
theorem read_read (now : DateTime) (value : Value) : (value.read now).2.read now = value.read now := by
  cases value with
  | fixed text => rfl
  | computed value =>
    obtain ⟨compute, count, memo⟩ := value
    cases memo <;> rfl

end Value

namespace Registry

variable {registry after : Registry} {now : DateTime} {name text : String}

/-- The text that a name is read as at a time. -/
def textAt (registry : Registry) (now : DateTime) (name : String) : String :=
  ((registry.table.get? name).map fun value => (value.read now).1).getD ""

/-- Whether a registered name can stand in a text at all. -/
def knows (registry : Registry) (name : String) : Bool :=
  isName name && registry.contains name

/-- Reads names one after the other. -/
def readAll (registry : Registry) (now : DateTime) : List String → Registry
  | [] => registry
  | name :: later =>
    match registry.resolve now name with
    | some (_, after) => after.readAll now later
    | none => registry.readAll now later

theorem resolve_eq_some_iff :
    registry.resolve now name = some (text, after) ↔ ∃ value, registry.table.get? name = some value ∧
      (value.read now).1 = text ∧ registry.insert name (value.read now).2 = after := by
  simp only [resolve, Option.map_eq_some_iff, Prod.mk.injEq]

/-- Reading a name changes no entry but that of the name, and that only to what has been read. -/
theorem get?_of_resolve (resolves : registry.resolve now name = some (text, after)) (other : String) :
    after.table.get? other = if other = name then
      (registry.table.get? other).map fun value => (value.read now).2 else registry.table.get? other := by
  obtain ⟨value, found, _, rfl⟩ := resolve_eq_some_iff.1 resolves
  by_cases same : other = name
  · subst same
    rw [if_pos rfl, found, insert, Table.get?_insert_self]
    rfl
  · rw [if_neg same, insert, Table.get?_insert_of_ne _ same]

/-- A name that is resolved is known, and to the text that it is resolved to. -/
theorem known_of_resolve (resolves : registry.resolve now name = some (text, after)) :
    registry.contains name = true ∧ registry.textAt now name = text := by
  obtain ⟨value, found, same, _⟩ := resolve_eq_some_iff.1 resolves
  rw [contains, Table.contains, textAt, found]
  exact ⟨rfl, same⟩

theorem textAt_of_resolve (resolves : registry.resolve now name = some (text, after)) :
    after.textAt now = registry.textAt now := by
  funext other
  rw [textAt, get?_of_resolve resolves, textAt]
  split
  · simp only [Option.map_map, Function.comp_def, Value.read_read]
  · rfl

theorem contains_of_resolve (resolves : registry.resolve now name = some (text, after)) :
    after.contains = registry.contains := by
  funext other
  rw [contains, Table.contains, get?_of_resolve resolves, contains, Table.contains]
  split
  · exact Option.isSome_map
  · rfl

theorem isName_of_knows (registry : Registry) (name : String) (known : registry.knows name = true) :
    isName name = true :=
  (Bool.and_eq_true_iff.1 known).1

theorem knows_of_resolve (resolves : registry.resolve now name = some (text, after)) :
    after.knows = registry.knows := by
  unfold knows
  rw [contains_of_resolve resolves]

theorem contains_readAll (registry : Registry) (now : DateTime) (names : List String) :
    (registry.readAll now names).contains = registry.contains := by
  induction names generalizing registry with
  | nil => rfl
  | cons name names ih =>
    rw [readAll]
    split
    · rename_i resolves
      rw [ih, contains_of_resolve resolves]
    · exact ih registry

theorem contains_resolveAll (registry : Registry) (now : DateTime) :
    (registry.resolveAll now).2.contains = registry.contains := by
  unfold Registry.resolveAll
  refine List.foldlRecOn (motive := fun state : List (String × String) × Registry =>
    state.2.contains = registry.contains) registry.names _ rfl ?_
  rintro ⟨rows, after⟩ same name _
  dsimp only
  split
  · rename_i resolves
    exact (contains_of_resolve resolves).trans same
  · exact same

theorem contains_reset (registry : Registry) : registry.reset.contains = registry.contains := by
  funext name
  rw [contains, Table.contains, reset, Table.get?_mapValues, Option.isSome_map]
  rfl

/-- Substitution fills the holes of a text, and reads the name of each. -/
theorem substituteText_eq_filled (registry : Registry) (now : DateTime) (text : List Char) :
    registry.substituteText now text = (filled registry.knows (registry.textAt now) text,
      registry.readAll now (holes registry.knows text)) := by
  unfold filled holes
  induction length : text.length using Nat.strong_induction_on generalizing text registry with
  | _ n ih =>
    cases text with
    | nil =>
      rw [substituteText, lex_nil]
      rfl
    | cons c cs =>
      cases found : nextToken? c cs with
      | none =>
        rw [lex_of_none found, substituteText]
        split
        · rfl
        · rename_i found'
          rw [found] at found'
          cases found'
      | some next =>
        obtain ⟨token, behind⟩ := next
        have shorter := nextToken?_length found
        rw [List.length_cons] at length
        have rest := ih behind.length (by omega) registry behind rfl
        rw [lex_of_some found]
        by_cases isDelimiter : token = .symbol delimiter
        · subst isDelimiter
          cases read : registry.readToken? now behind with
          | none =>
            have kept := pieces_of_not_token? registry.isName_of_knows fun name _ found => by
              rw [readToken?, found, Option.map_eq_none_iff] at read
              rw [knows, resolve_eq_none_iff.1 read, Bool.and_false]
            rw [substituteText_copy found fun _ => read, rest, kept]
            rfl
          | some next =>
            obtain ⟨value, behind', after⟩ := next
            have fewer := readToken?_length read
            have replaced := substituteText_replace found read
            unfold readToken? at read
            split at read
            · cases read
            · rename_i name behind isToken
              obtain ⟨⟨text, after'⟩, resolves, same⟩ := Option.map_eq_some_iff.1 read
              cases same
              obtain ⟨isKnown, value⟩ := known_of_resolve resolves
              have known : registry.knows (String.ofList name) = true := by
                rw [knows, isName_of_token? isToken, isKnown, Bool.and_self]
              have later := ih behind'.length (by omega) after behind' rfl
              rw [knows_of_resolve resolves, textAt_of_resolve resolves] at later
              obtain ⟨shape, unread⟩ := pieces_of_token? isToken known
              dsimp only
              rw [replaced, later, shape, unread]
              simp [Piece.fill, Piece.hole?, readAll, resolves, value]
        · rw [substituteText_copy found fun same => absurd same isDelimiter, rest,
            pieces_cons_of_ne isDelimiter]
          simp [Piece.fill, Piece.hole?, List.filterMap_cons]

/-- Where all registered names are names, they are the known ones. -/
theorem substituteText_eq (named : ∀ name, registry.contains name = true → isName name = true)
    (now : DateTime) (text : List Char) :
    registry.substituteText now text = (filled registry.contains (registry.textAt now) text,
      registry.readAll now (holes registry.contains text)) := by
  have same : registry.knows = registry.contains := by
    funext name
    rw [knows, Bool.and_eq_right_iff_imp]
    exact named name
  rw [substituteText_eq_filled, same]

end Registry

end PortableSql.Placeholder
