import PortableSql.Proofs.Placeholder.Skeleton

/-!
# The skeleton of a query

For the placeholders of a query, the spans in which no names are looked for are those that the lexical
grammar reads as quoted or as comments, and what stands behind a quote that is never closed (`Shielded`).
Substitution takes words and numbers whole where a skeleton takes their characters one by one, which makes
no difference to the text (`filled_eq`). Main statement: `substitution_fills_skeleton`.
-/
namespace PortableSql.Query

open Text

theorem splitQuoted?_eq_none_iff {quote : Char} {text : List Char} :
    splitQuoted? quote text = none ↔ QuotedBody quote text := by
  constructor
  · intro missing
    fun_induction splitQuoted? quote text with
    | case1 => exact .nil
    | case2 => cases missing
    | case3 c different => exact .other different .nil
    | case4 rest ih => exact .doubled (ih (Option.map_eq_none_iff.1 missing))
    | case5 => cases missing
    | case6 c d rest different ih => exact .other different (ih (Option.map_eq_none_iff.1 missing))
  · intro inside
    induction inside with
    | nil => rfl
    | other different _ ih => rw [splitQuoted?_cons_of_ne different, ih, Option.map_none]
    | doubled _ ih => rw [splitQuoted?, if_pos rfl, if_pos rfl, ih, Option.map_none]

theorem nextToken?_eq_none_iff {c : Char} {text : List Char} :
    nextToken? c text = none ↔ isQuote c = true ∧ QuotedBody c text := by
  rw [← splitQuoted?_eq_none_iff]
  unfold nextToken?
  split
  · rename_i opens
    simp [opens]
  · rename_i noQuote
    split
    · simp [noQuote]
    · split
      · simp [noQuote]
      · split <;> simp [noQuote]

namespace Token.StandsBefore

variable {letters : List Char} {next : Option Char}

theorem number_letters (stands : (Token.number letters).StandsBefore next) :
    ∀ c ∈ letters, isNumberChar c = true := by
  cases stands with
  | number digit inside =>
    refine List.forall_mem_cons.2 ⟨?_, inside⟩
    rw [isNumberChar, isNameChar, digit, Bool.or_true, Bool.true_or]

theorem word_letters (stands : (Token.word letters).StandsBefore next) :
    ∀ c ∈ letters, isNumberChar c = true := by
  cases stands with
  | word start inside =>
    refine List.forall_mem_cons.2 ⟨?_, fun c member => ?_⟩
    · rw [isNumberChar, isNameChar, start, Bool.true_or, Bool.true_or]
    · rw [isNumberChar, inside c member, Bool.true_or]

end Token.StandsBefore

end PortableSql.Query

namespace PortableSql.Placeholder

open Calendar Query Text

/-- A quoted span or a comment in front of what follows it, or all that stands behind a quote that is never
closed. -/
inductive Shielded : List Char → List Char → Prop
  | quoted {span behind : List Char} (stands : (Token.quoted span).StandsBefore behind.head?) :
      Shielded span behind
  | comment {span behind : List Char} (stands : (Token.comment span).StandsBefore behind.head?) :
      Shielded span behind
  | unclosed {quote : Char} {body : List Char} (opens : isQuote quote = true)
      (inside : QuotedBody quote body) : Shielded (quote :: body) []

namespace Shielded

variable {c : Char} {span behind text : List Char}

/-- A span begins with a quote or with two dashes. -/
theorem first (shielded : Shielded span behind) (whole : span ++ behind = c :: text) :
    isQuote c = true ∨ c = '-' ∧ text.head? = some '-' := by
  cases shielded with
  | quoted stands =>
    cases stands with
    | quoted opens =>
      obtain ⟨rfl, _⟩ := List.cons.inj whole
      exact .inl opens
  | comment stands =>
    cases stands with
    | comment =>
      obtain ⟨rfl, rfl⟩ := List.cons.inj whole
      exact .inr ⟨rfl, rfl⟩
  | unclosed opens =>
    obtain ⟨rfl, _⟩ := List.cons.inj whole
    exact .inl opens

/-- What the scanner finds at a span. -/
theorem nextToken? (shielded : Shielded span behind) (whole : span ++ behind = c :: text) :
    Query.nextToken? c text = some (.quoted span, behind) ∨
      Query.nextToken? c text = some (.comment span, behind) ∨
      Query.nextToken? c text = none ∧ behind = [] := by
  cases shielded with
  | quoted stands => exact .inl (nextToken?_of_standsBefore stands whole)
  | comment stands => exact .inr (.inl (nextToken?_of_standsBefore stands whole))
  | unclosed opens inside =>
    rw [List.append_nil] at whole
    obtain ⟨rfl, rfl⟩ := List.cons.inj whole
    exact .inr (.inr ⟨nextToken?_eq_none_iff.2 ⟨opens, inside⟩, rfl⟩)

theorem ne_nil (shielded : Shielded span behind) : span ≠ [] := by
  cases shielded with
  | quoted stands | comment stands => exact stands.text_ne_nil
  | unclosed => exact List.cons_ne_nil _ _

/-- No span begins at a symbol. -/
theorem ne_symbol {rest : List Char} (stands : (Token.symbol c).StandsBefore behind.head?)
    (shielded : Shielded span rest) : span ++ rest ≠ c :: behind := by
  intro same
  cases stands with
  | symbol noQuote _ _ noComment =>
    rcases shielded.first same with opens | ⟨dash, second⟩
    · rw [noQuote] at opens
      cases opens
    · exact noComment dash second

theorem isShielding : Shielding Shielded where
  unique := by
    intro span rest other behind shielded shielded' same
    obtain ⟨c, letters, rfl⟩ := List.exists_cons_of_ne_nil shielded.ne_nil
    rcases shielded.nextToken? rfl with found | found | ⟨found, rfl⟩
    · rcases shielded'.nextToken? same.symm with found' | found' | ⟨found', _⟩ <;>
        cases found.symm.trans found'
      rfl
    · rcases shielded'.nextToken? same.symm with found' | found' | ⟨found', _⟩ <;>
        cases found.symm.trans found'
      rfl
    · rcases shielded'.nextToken? same.symm with found' | found' | ⟨_, rfl⟩
      · cases found.symm.trans found'
      · cases found.symm.trans found'
      · simpa using same
  begins := by
    intro span rest shielded
    obtain ⟨c, letters, rfl⟩ := List.exists_cons_of_ne_nil shielded.ne_nil
    refine ⟨c, letters, rfl, ?_⟩
    rcases shielded.first rfl with opens | ⟨rfl, _⟩
    · rcases isQuote_iff.1 opens with rfl | rfl <;> exact ⟨rfl, by decide⟩
    · exact ⟨rfl, by decide⟩

end Shielded

namespace Skeleton

variable {known : String → Bool} {pieces : List Piece}

/-- The characters of a word or of a number are kept one by one. -/
theorem of_letters {letters behind : List Char} (inside : ∀ c ∈ letters, isNumberChar c = true)
    (skeleton : Skeleton Shielded known (letters ++ behind) pieces) :
    ∃ later, pieces = letters.map (fun c => .kept [c]) ++ later ∧
      Skeleton Shielded known behind later := by
  induction letters generalizing pieces with
  | nil => exact ⟨pieces, rfl, skeleton⟩
  | cons c letters ih =>
    obtain ⟨first, others⟩ := List.forall_mem_cons.1 inside
    have noSpan : ∀ span rest, Shielded span rest → span ++ rest ≠ c :: (letters ++ behind) := by
      intro span rest shielded same
      rcases shielded.first same with opens | ⟨rfl, _⟩
      · rcases isQuote_iff.1 opens with rfl | rfl <;> cases first
      · cases first
    have different : c ≠ delimiter := by
      rintro rfl
      cases first
    obtain ⟨behind', rfl, rest⟩ := skeleton.of_copy noSpan
      fun name rest named _ => name_ne_cons named different rest _
    obtain ⟨later, rfl, rest'⟩ := ih others rest
    exact ⟨later, rfl, rest'⟩

end Skeleton

/-! ## Pieces that are read -/

namespace Piece

variable {α : Type} {read : Piece → List α}

/-- What is read of pieces is the same however the text that is kept is divided. -/
structure Seamless (read : Piece → List α) : Prop where
  nil : read (.kept []) = []
  append (front back : List Char) : read (.kept (front ++ back)) = read (.kept front) ++ read (.kept back)

theorem seamless_fill (value : String → String) : Seamless (Piece.fill value) :=
  ⟨rfl, fun _ _ => rfl⟩

theorem seamless_hole? : Seamless fun piece => piece.hole?.toList :=
  ⟨rfl, fun _ _ => rfl⟩

theorem Seamless.flatMap_kept (seamless : Seamless read) (letters : List Char) (later : List Piece) :
    (letters.map (fun c => Piece.kept [c]) ++ later).flatMap read =
      read (.kept letters) ++ later.flatMap read := by
  induction letters with
  | nil => rw [seamless.nil, List.map_nil, List.nil_append, List.nil_append]
  | cons c letters ih =>
    rw [List.map_cons, List.cons_append, List.flatMap_cons, ih, ← List.append_assoc, ← seamless.append]
    rfl

end Piece

/-- What is read of the pieces of a text, and of what is left of it. -/
def gathered {α : Type} (known : String → Bool) (read : Piece → List α) (text : List Char) : List α :=
  (pieces known (lex text).1).flatMap read ++ read (.kept (lex text).2)

variable {α : Type} {known : String → Bool} {read : Piece → List α} {c : Char} {cs behind : List Char}

/-- A token at which no hole begins is kept. -/
theorem gathered_cons {token : Token} (found : nextToken? c cs = some (token, behind))
    (different : token ≠ .symbol delimiter) :
    gathered known read (c :: cs) = read (.kept token.text) ++ gathered known read behind := by
  rw [gathered, lex_of_some found, pieces_cons_of_ne different, List.flatMap_cons, List.append_assoc,
    ← gathered]

/-- A delimiter is kept, or it begins a hole. -/
theorem gathered_delimiter (named : ∀ name, known name = true → isName name = true)
    (text : List Char) :
    (∃ name rest, known name = true ∧ name.toList ++ rest = delimiter :: text ∧
        rest.length < text.length ∧
        gathered known read (delimiter :: text) = read (.hole name) ++ gathered known read rest) ∨
      (∀ name rest, known name = true → name.toList ++ rest ≠ delimiter :: text) ∧
        gathered known read (delimiter :: text) =
          read (.kept [delimiter]) ++ gathered known read text := by
  have found : nextToken? delimiter text = some (.symbol delimiter, text) :=
    nextToken?_of_standsBefore (delimiter_standsBefore text.head?) rfl
  rw [gathered, lex_of_some found]
  by_cases begun : ∃ name rest, known name = true ∧ name.toList ++ rest = delimiter :: text
  · obtain ⟨name, rest, isKnown, same⟩ := begun
    obtain ⟨text', shape, read⟩ := token?_name (named name isKnown) rest
    obtain rfl : text' = text := (List.cons.inj (shape.symm.trans same)).2
    have isKnown' : known (String.ofList name.toList) = true := by
      rwa [String.ofList_toList]
    obtain ⟨split, unread⟩ := pieces_of_token? read isKnown'
    refine .inl ⟨name, rest, isKnown, same, token?_length read, ?_⟩
    rw [split, unread, String.ofList_toList, List.flatMap_cons, List.append_assoc]
    rfl
  · have none : ∀ name rest, known name = true → name.toList ++ rest ≠ delimiter :: text :=
      fun name rest isKnown same => begun ⟨name, rest, isKnown, same⟩
    refine .inr ⟨none, ?_⟩
    rw [pieces_of_not_token? named, List.flatMap_cons, List.append_assoc]
    · rfl
    · intro name rest read
      by_contra isKnown
      exact none (String.ofList name) rest (eq_true_of_ne_false isKnown)
        (by rw [String.toList_ofList, token?_append read])

/-- The pieces of a skeleton are read as those that the scanner finds. -/
theorem gathered_eq (seamless : Piece.Seamless read) {text : List Char} {pieces : List Piece}
    (skeleton : Skeleton Shielded known text pieces) :
    gathered (fun name => isName name && known name) read text = pieces.flatMap read := by
  have named : ∀ name, (isName name && known name) = true → isName name = true :=
    fun name both => (Bool.and_eq_true_iff.1 both).1
  induction length : text.length using Nat.strong_induction_on generalizing text pieces with
  | _ n ih =>
    cases text with
    | nil =>
      rw [skeleton.of_nil Shielded.isShielding, gathered, lex_nil]
      exact seamless.nil
    | cons c cs =>
      cases found : nextToken? c cs with
      | none =>
        obtain ⟨opens, inside⟩ := nextToken?_eq_none_iff.1 found
        rw [← List.append_nil (c :: cs)] at skeleton
        obtain ⟨later, rfl, rest⟩ := skeleton.of_span Shielded.isShielding (.unclosed opens inside)
        rw [rest.of_nil Shielded.isShielding, gathered, lex_of_none found]
        simp [pieces]
      | some next =>
        obtain ⟨token, behind⟩ := next
        obtain ⟨whole, stands⟩ := nextToken?_eq_some_iff.1 found
        have shorter := nextToken?_length found
        rw [List.length_cons] at length
        rw [← whole] at skeleton
        cases token with
        | quoted span =>
          obtain ⟨later, rfl, rest⟩ := skeleton.of_span Shielded.isShielding (.quoted stands)
          rw [gathered_cons found (by simp), ih behind.length (by omega) rest rfl]
          rfl
        | comment span =>
          obtain ⟨later, rfl, rest⟩ := skeleton.of_span Shielded.isShielding (.comment stands)
          rw [gathered_cons found (by simp), ih behind.length (by omega) rest rfl]
          rfl
        | number letters =>
          obtain ⟨later, rfl, rest⟩ := skeleton.of_letters stands.number_letters
          rw [gathered_cons found (by simp), ih behind.length (by omega) rest rfl,
            seamless.flatMap_kept, Token.text]
        | word letters =>
          obtain ⟨later, rfl, rest⟩ := skeleton.of_letters stands.word_letters
          rw [gathered_cons found (by simp), ih behind.length (by omega) rest rfl,
            seamless.flatMap_kept, Token.text]
        | symbol d =>
          obtain ⟨rfl, sameRest⟩ := List.cons.inj whole
          obtain rfl : behind = cs := sameRest
          have noSpan := fun span rest (shielded : Shielded span rest) => shielded.ne_symbol stands
          by_cases isDelimiter : d = delimiter
          · subst isDelimiter
            rcases @gathered_delimiter _ _ read named behind with
              ⟨name, rest, both, same, fewer, replaced⟩ | ⟨none, kept⟩
            · obtain ⟨isName, isKnown⟩ := Bool.and_eq_true_iff.1 both
              rw [Token.text, List.singleton_append, ← same] at skeleton
              obtain ⟨later, rfl, inner⟩ := skeleton.of_name Shielded.isShielding isName isKnown
              rw [replaced, ih rest.length (by omega) inner rfl]
              rfl
            · obtain ⟨later, rfl, inner⟩ := skeleton.of_copy noSpan
                fun name rest isName isKnown => none name rest (by simp [isName, isKnown])
              rw [kept, ih behind.length (by omega) inner rfl]
              rfl
          · obtain ⟨later, rfl, inner⟩ := skeleton.of_copy noSpan
              fun name rest isName _ => name_ne_cons isName isDelimiter rest behind
            rw [gathered_cons found (by simpa using isDelimiter), ih behind.length (by omega) inner rfl]
            rfl

/-- The pieces of a skeleton, filled, are the text with values in its holes. -/
theorem filled_eq {value : String → String} {text : List Char} {pieces : List Piece}
    (skeleton : Skeleton Shielded known text pieces) :
    filled (fun name => isName name && known name) value text =
      pieces.flatMap (Piece.fill value) :=
  gathered_eq (Piece.seamless_fill value) skeleton

/-- The holes of a text are those of its skeleton. -/
theorem holes_eq {text : List Char} {pieces : List Piece}
    (skeleton : Skeleton Shielded known text pieces) :
    holes (fun name => isName name && known name) text = pieces.filterMap Piece.hole? := by
  have gathers := gathered_eq Piece.seamless_hole? skeleton
  rw [← List.filterMap_eq_flatMap_toList] at gathers
  rw [← gathers, gathered, ← List.filterMap_eq_flatMap_toList, holes]
  exact (List.append_nil _).symm

theorem Registry.exists_resolve (registry : Registry) (now : DateTime) {name : String}
    (isKnown : registry.contains name = true) :
    ∃ after, registry.resolve now name = some (registry.textAt now name, after) := by
  cases resolves : registry.resolve now name with
  | none =>
    rw [Registry.resolve_eq_none_iff.1 resolves] at isKnown
    cases isKnown
  | some next =>
    rw [(Registry.known_of_resolve resolves).2]
    exact ⟨next.2, rfl⟩

/-- The pieces of a query that are kept and those that are replaced are fixed by the query and the known
names. Each registry with these names fills the holes with its own values. Spans are kept, and so is a query
in which no known name stands outside of them. -/
theorem substitution_fills_skeleton (known : String → Bool) (text : String) :
    ∃ pieces, Skeleton Shielded known text.toList pieces ∧
      (∀ other, Skeleton Shielded known text.toList other → other = pieces) ∧
      (∀ (registry : Registry) (now : DateTime), (∀ name, registry.contains name = known name) →
        (registry.substitute now text).1 =
            String.ofList (pieces.flatMap (Piece.fill (registry.textAt now))) ∧
          ∀ name, .hole name ∈ pieces →
            ∃ after, registry.resolve now name = some (registry.textAt now name, after)) ∧
      sourceOf pieces = text.toList ∧
      (∀ front span behind, text.toList = front ++ (span ++ behind) →
        CodePlace Shielded (span ++ behind) front → Shielded span behind →
          ∃ before after, pieces = before ++ .kept span :: after ∧ sourceOf before = front) ∧
      ((∀ front name behind, text.toList = front ++ (name.toList ++ behind) →
          CodePlace Shielded (name.toList ++ behind) front → isName name = true →
            known name = false) →
        ∀ (registry : Registry) (now : DateTime), (∀ name, registry.contains name = known name) →
          (registry.substitute now text).1 = text) := by
  obtain ⟨pieces, skeleton⟩ := exists_skeleton Shielded.isShielding known text.toList
  have fills : ∀ (registry : Registry) (now : DateTime),
      (∀ name, registry.contains name = known name) → (registry.substitute now text).1 =
        String.ofList (pieces.flatMap (Piece.fill (registry.textAt now))) := by
    intro registry now names
    obtain rfl : registry.contains = known := funext names
    rw [Registry.substitute, registry.substituteText_eq_filled, ← filled_eq skeleton]
    rfl
  refine ⟨pieces, skeleton, fun other => skeleton.unique Shielded.isShielding,
    fun registry now names => ⟨fills registry now names, fun name member => ?_⟩, skeleton.source_eq,
    fun front span behind same place => skeleton.exists_kept Shielded.isShielding same place,
    fun free registry now names => ?_⟩
  · obtain ⟨_, _, _, _, _, isKnown⟩ := skeleton.exists_codePlace Shielded.isShielding member
    exact registry.exists_resolve now (by rw [names, isKnown])
  · rw [fills registry now names, skeleton.fill_of_free Shielded.isShielding free,
      String.ofList_toList]

/-- Two registries fill the one hole of a query in which a quoted name, an unknown one and a commented one
stand. -/
theorem substitution_fills_skeleton_of_overlap :
    let first : Registry := ⟨⟨[("#A#", .fixed "#B#'"), ("#B#", .fixed "--")]⟩⟩
    let second : Registry := ⟨⟨[("#A#", .counter "n"), ("#B#", .fixed "b")]⟩⟩
    let now : DateTime := ⟨⟨2000, 1, 1, by decide⟩, ⟨0, 0, 0, 0, by decide⟩⟩
    let text := "'#A#' #C#A#B# -- #B#"
    ∃ pieces, sourceOf pieces = text.toList ∧
      (∀ registry ∈ [first, second], (registry.substitute now text).1 =
        String.ofList (pieces.flatMap (Piece.fill (registry.textAt now)))) ∧
      (first.substitute now text).1 = "'#A#' #C#B#'B# -- #B#" ∧
      (second.substitute now text).1 = "'#A#' #Cn0B# -- #B#" := by
  intro first second now text
  have names : ∀ name, second.contains name = first.contains name := by
    intro name
    simp only [Registry.contains, Table.contains, Table.get?, first, second, Table.findEntry]
    split
    · rfl
    · split <;> rfl
  obtain ⟨pieces, _, _, fills, source, _⟩ := substitution_fills_skeleton first.contains text
  exact ⟨pieces, source, List.forall_mem_cons.2 ⟨(fills first now fun _ => rfl).1,
    List.forall_mem_singleton.2 (fills second now names).1⟩, by decide +kernel, by decide +kernel⟩

end PortableSql.Placeholder
