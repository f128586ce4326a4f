import Mathlib.Data.List.Basic
import PortableSql.Proofs.Placeholder.Holes

/-!
# Skeletons

Which parts of a text are replaced by values, said by the text and the known names alone. A skeleton is a
list of pieces that are kept and of holes for known names (`Skeleton`). It is found from left to right: a
span in which no names are looked for is kept whole, a token of a known name is a hole, and any other
character is kept alone, a delimiter too. A text has one skeleton (`exists_skeleton`, `Skeleton.unique`),
which is the text again where each hole holds its own name (`Skeleton.source_eq`).
-/
namespace PortableSql.Placeholder

open Text

/-- The text that pieces are taken from. -/
def sourceOf (pieces : List Piece) : List Char :=
  pieces.flatMap (Piece.fill id)

/-- The pieces of a text where names of this kind are known and spans of this kind, each in front of what
follows it, are kept whole. -/
inductive Skeleton (shields : List Char → List Char → Prop) (known : String → Bool) :
    List Char → List Piece → Prop
  | nil : Skeleton shields known [] []
  | span {span behind : List Char} {pieces : List Piece} (shielded : shields span behind)
      (later : Skeleton shields known behind pieces) :
      Skeleton shields known (span ++ behind) (.kept span :: pieces)
  | hole {name : String} {behind : List Char} {pieces : List Piece} (named : isName name = true)
      (isKnown : known name = true) (later : Skeleton shields known behind pieces) :
      Skeleton shields known (name.toList ++ behind) (.hole name :: pieces)
  | copy {c : Char} {behind : List Char} {pieces : List Piece}
      (noSpan : ∀ span rest, shields span rest → span ++ rest ≠ c :: behind)
      (noHole : ∀ name rest, isName name = true → known name = true →
        name.toList ++ rest ≠ c :: behind)
      (later : Skeleton shields known behind pieces) :
      Skeleton shields known (c :: behind) (.kept [c] :: pieces)

/-- The place between a text and the one behind it lies outside of the spans of both together. -/
inductive CodePlace (shields : List Char → List Char → Prop) (behind : List Char) : List Char → Prop
  | start : CodePlace shields behind []
  | span {span front : List Char} (shielded : shields span (front ++ behind))
      (later : CodePlace shields behind front) : CodePlace shields behind (span ++ front)
  | copy {c : Char} {front : List Char}
      (noSpan : ∀ span rest, shields span rest → span ++ rest ≠ c :: (front ++ behind))
      (later : CodePlace shields behind front) : CodePlace shields behind (c :: front)

/-- At most one span begins at a place of a text, and none where a name or a delimiter stands. -/
structure Shielding (shields : List Char → List Char → Prop) : Prop where
  unique : ∀ {span rest other behind}, shields span rest → shields other behind →
    span ++ rest = other ++ behind → span = other
  begins : ∀ {span rest}, shields span rest →
    ∃ c letters, span = c :: letters ∧ isNameChar c = false ∧ c ≠ delimiter

/-! ## Names at the beginning of a text -/

theorem exists_letters_of_isName {name : String} (named : isName name = true) :
    ∃ letters, name = delimited letters ∧ ∀ c ∈ letters, isNameChar c = true := by
  unfold isName at named
  split at named
  · cases named
  · rename_i first rest shape
    simp only [Bool.and_eq_true, beq_iff_eq, List.all_eq_true] at named
    obtain ⟨⟨⟨rfl, last⟩, _⟩, inside⟩ := named
    obtain ⟨letters, rfl⟩ := List.getLast?_eq_some_iff.1 last
    rw [List.dropLast_concat] at inside
    exact ⟨letters, by rw [delimited, ← shape, String.ofList_toList], inside⟩

/-- A name at the beginning of a text is the token that is read there. -/
theorem token?_name {name : String} (named : isName name = true) (behind : List Char) :
    ∃ text, name.toList ++ behind = delimiter :: text ∧
      token? text = some (name.toList, behind) := by
  obtain ⟨letters, rfl, _⟩ := exists_letters_of_isName named
  have shape : (delimited letters).toList = delimiter :: (letters ++ [delimiter]) :=
    String.toList_ofList
  refine ⟨letters ++ delimiter :: behind, by simp [shape], ?_⟩
  rw [shape]
  exact token?_of_isName named

theorem eq_of_names {name other : String} {behind rest : List Char} (named : isName name = true)
    (named' : isName other = true) (same : name.toList ++ behind = other.toList ++ rest) :
    name = other ∧ behind = rest := by
  obtain ⟨text, shape, found⟩ := token?_name named behind
  obtain ⟨text', shape', found'⟩ := token?_name named' rest
  obtain rfl : text = text' := by
    rw [shape, shape'] at same
    exact (List.cons.inj same).2
  obtain ⟨sameName, sameRest⟩ := Prod.mk.inj (Option.some.inj (found.symm.trans found'))
  exact ⟨String.toList_inj.1 sameName, sameRest⟩

theorem name_ne_cons {name : String} (named : isName name = true) {c : Char} (different : c ≠ delimiter)
    (rest behind : List Char) : name.toList ++ rest ≠ c :: behind := by
  obtain ⟨text, shape, _⟩ := token?_name named rest
  rw [shape]
  intro same
  exact different (List.cons.inj same).1.symm

/-- A name is made of name characters and delimiters. -/
theorem isNameChar_or_delimiter {name : String} (named : isName name = true) {c : Char}
    (member : c ∈ name.toList) : isNameChar c = true ∨ c = delimiter := by
  obtain ⟨letters, rfl, inside⟩ := exists_letters_of_isName named
  rw [delimited, String.toList_ofList, List.mem_cons, List.mem_append, List.mem_singleton] at member
  rcases member with same | member | same
  · exact .inr same
  · exact .inl (inside c member)
  · exact .inr same

section

variable {shields : List Char → List Char → Prop} {known : String → Bool} {text : List Char}
  {pieces : List Piece}

namespace Shielding

variable (shielding : Shielding shields)
include shielding

theorem ne_cons {c : Char} (inside : isNameChar c = true ∨ c = delimiter) {span rest : List Char}
    (shielded : shields span rest) (behind : List Char) : span ++ rest ≠ c :: behind := by
  intro same
  obtain ⟨d, letters, rfl, outside, notDelimiter⟩ := shielding.begins shielded
  obtain ⟨rfl, _⟩ := List.cons.inj same
  rcases inside with inside | isDelimiter
  · rw [outside] at inside
    cases inside
  · exact notDelimiter isDelimiter

theorem ne_name {name : String} (named : isName name = true) {span rest : List Char}
    (shielded : shields span rest) (behind : List Char) :
    span ++ rest ≠ name.toList ++ behind := by
  obtain ⟨text, shape, _⟩ := token?_name named behind
  rw [shape]
  exact shielding.ne_cons (.inr rfl) shielded text

end Shielding

/-! ## One skeleton -/

namespace Skeleton

theorem source_eq (skeleton : Skeleton shields known text pieces) : sourceOf pieces = text := by
  induction skeleton with
  | nil => rfl
  | span _ _ ih | hole _ _ _ ih | copy _ _ _ ih =>
    rw [sourceOf, List.flatMap_cons, ← sourceOf, ih]
    rfl

theorem of_nil (shielding : Shielding shields) (skeleton : Skeleton shields known [] pieces) :
    pieces = [] := by
  generalize whole : [] = text at skeleton
  cases skeleton with
  | nil => rfl
  | span shielded =>
    obtain ⟨c, letters, rfl, _⟩ := shielding.begins shielded
    cases whole
  | @hole name behind _ named =>
    obtain ⟨text, shape, _⟩ := token?_name named behind
    rw [shape] at whole
    cases whole
  | copy => cases whole

theorem of_span (shielding : Shielding shields) {span behind : List Char}
    (shielded : shields span behind) (skeleton : Skeleton shields known (span ++ behind) pieces) :
    ∃ later, pieces = .kept span :: later ∧ Skeleton shields known behind later := by
  generalize whole : span ++ behind = text at skeleton
  cases skeleton with
  | nil =>
    obtain ⟨c, letters, rfl, _⟩ := shielding.begins shielded
    cases whole
  | span shielded' later =>
    obtain rfl := shielding.unique shielded shielded' whole
    obtain rfl := List.append_cancel_left whole
    exact ⟨_, rfl, later⟩
  | hole named => exact absurd whole (shielding.ne_name named shielded _)
  | copy noSpan => exact absurd whole (noSpan _ _ shielded)

theorem of_name (shielding : Shielding shields) {name : String} {behind : List Char}
    (named : isName name = true) (isKnown : known name = true)
    (skeleton : Skeleton shields known (name.toList ++ behind) pieces) :
    ∃ later, pieces = .hole name :: later ∧ Skeleton shields known behind later := by
  generalize whole : name.toList ++ behind = text at skeleton
  cases skeleton with
  | nil =>
    obtain ⟨text, shape, _⟩ := token?_name named behind
    rw [shape] at whole
    cases whole
  | span shielded => exact absurd whole.symm (shielding.ne_name named shielded _)
  | hole named' _ later =>
    obtain ⟨rfl, rfl⟩ := eq_of_names named named' whole
    exact ⟨_, rfl, later⟩
  | copy _ noHole => exact absurd whole (noHole _ _ named isKnown)

theorem of_copy {c : Char} {behind : List Char}
    (noSpan : ∀ span rest, shields span rest → span ++ rest ≠ c :: behind)
    (noHole : ∀ name rest, isName name = true → known name = true →
      name.toList ++ rest ≠ c :: behind)
    (skeleton : Skeleton shields known (c :: behind) pieces) :
    ∃ later, pieces = .kept [c] :: later ∧ Skeleton shields known behind later := by
  generalize whole : c :: behind = text at skeleton
  cases skeleton with
  | nil => cases whole
  | span shielded => exact absurd whole.symm (noSpan _ _ shielded)
  | hole named isKnown => exact absurd whole.symm (noHole _ _ named isKnown)
  | copy _ _ later =>
    obtain ⟨rfl, rfl⟩ := List.cons.inj whole
    exact ⟨_, rfl, later⟩

/-- A text has no other skeleton. -/
theorem unique (shielding : Shielding shields) {other : List Piece}
    (first : Skeleton shields known text pieces) (second : Skeleton shields known text other) :
    other = pieces := by
  induction first generalizing other with
  | nil => exact second.of_nil shielding
  | span shielded _ ih =>
    obtain ⟨later, rfl, rest⟩ := second.of_span shielding shielded
    rw [ih rest]
  | hole named isKnown _ ih =>
    obtain ⟨later, rfl, rest⟩ := second.of_name shielding named isKnown
    rw [ih rest]
  | copy noSpan noHole _ ih =>
    obtain ⟨later, rfl, rest⟩ := second.of_copy noSpan noHole
    rw [ih rest]

end Skeleton

/-- Every text has a skeleton. -/
theorem exists_skeleton (shielding : Shielding shields) (known : String → Bool) (text : List Char) :
    ∃ pieces, Skeleton shields known text pieces := by
  induction length : text.length using Nat.strong_induction_on generalizing text with
  | _ n ih =>
    by_cases spanned : ∃ span behind, shields span behind ∧ span ++ behind = text
    · obtain ⟨span, behind, shielded, rfl⟩ := spanned
      obtain ⟨c, letters, rfl, _⟩ := shielding.begins shielded
      obtain ⟨pieces, later⟩ := ih behind.length (by simp at length; omega) behind rfl
      exact ⟨_, .span shielded later⟩
    · by_cases begun : ∃ name behind, isName name = true ∧ known name = true ∧
          name.toList ++ behind = text
      · obtain ⟨name, behind, named, isKnown, rfl⟩ := begun
        obtain ⟨text, shape, found⟩ := token?_name named behind
        have shorter := token?_length found
        rw [shape, List.length_cons] at length
        obtain ⟨pieces, later⟩ := ih behind.length (by omega) behind rfl
        exact ⟨_, .hole named isKnown later⟩
      · cases text with
        | nil => exact ⟨[], .nil⟩
        | cons c behind =>
          rw [List.length_cons] at length
          obtain ⟨pieces, later⟩ := ih behind.length (by omega) behind rfl
          refine ⟨_, .copy (fun span rest shielded same => ?_) (fun name rest named isKnown same => ?_)
            later⟩
          · exact spanned ⟨span, rest, shielded, same⟩
          · exact begun ⟨name, rest, named, isKnown, same⟩

/-! ## Places outside of spans -/

namespace CodePlace

variable {behind front : List Char}

theorem letters (shielding : Shielding shields) {letters : List Char}
    (inside : ∀ c ∈ letters, isNameChar c = true ∨ c = delimiter)
    (later : CodePlace shields behind front) : CodePlace shields behind (letters ++ front) := by
  induction letters with
  | nil => exact later
  | cons c letters ih =>
    obtain ⟨first, others⟩ := List.forall_mem_cons.1 inside
    exact .copy (fun span rest shielded => shielding.ne_cons first shielded _) (ih others)

/-- A place at which a span begins does not lie inside of a name. -/
theorem of_letters (shielding : Shielding shields) {letters rest span after : List Char}
    (inside : ∀ c ∈ letters, isNameChar c = true ∨ c = delimiter) (shielded : shields span after)
    (same : letters ++ rest = front ++ (span ++ after))
    (place : CodePlace shields (span ++ after) front) :
    ∃ front', front = letters ++ front' ∧ CodePlace shields (span ++ after) front' := by
  induction letters generalizing front with
  | nil => exact ⟨front, rfl, place⟩
  | cons c letters ih =>
    obtain ⟨first, others⟩ := List.forall_mem_cons.1 inside
    cases place with
    | start => exact absurd same.symm (shielding.ne_cons first shielded _)
    | @span span' front' shielded' =>
      rw [List.append_assoc] at same
      exact absurd same.symm (shielding.ne_cons first shielded' _)
    | copy _ later =>
      obtain ⟨rfl, sameRest⟩ := List.cons.inj same
      obtain ⟨front', rfl, placed⟩ := ih others sameRest later
      exact ⟨front', rfl, placed⟩

end CodePlace

namespace Skeleton

/-- A hole is a known name that stands outside of the spans. -/
theorem exists_codePlace (shielding : Shielding shields)
    (skeleton : Skeleton shields known text pieces) {name : String} (member : .hole name ∈ pieces) :
    ∃ front behind, text = front ++ (name.toList ++ behind) ∧
      CodePlace shields (name.toList ++ behind) front ∧ isName name = true ∧ known name = true := by
  induction skeleton with
  | nil => cases member
  | @span span _ _ shielded _ ih =>
    rcases List.mem_cons.1 member with same | member
    · cases same
    · obtain ⟨front, behind, rfl, place, isKnown⟩ := ih member
      exact ⟨span ++ front, behind, by rw [List.append_assoc], .span shielded place, isKnown⟩
  | @hole other _ _ named isKnown _ ih =>
    rcases List.mem_cons.1 member with same | member
    · cases same
      exact ⟨[], _, rfl, .start, named, isKnown⟩
    · obtain ⟨front, behind, rfl, place, isKnown⟩ := ih member
      exact ⟨other.toList ++ front, behind, by rw [List.append_assoc],
        place.letters shielding fun _ => isNameChar_or_delimiter named, isKnown⟩
  | @copy c _ _ noSpan _ _ ih =>
    rcases List.mem_cons.1 member with same | member
    · cases same
    · obtain ⟨front, behind, rfl, place, isKnown⟩ := ih member
      exact ⟨c :: front, behind, rfl, .copy noSpan place, isKnown⟩

/-- A text in which no known name stands outside of the spans is kept. -/
theorem fill_of_free (shielding : Shielding shields) (skeleton : Skeleton shields known text pieces)
    (free : ∀ front name behind, text = front ++ (name.toList ++ behind) →
      CodePlace shields (name.toList ++ behind) front → isName name = true → known name = false)
    (value : String → String) : pieces.flatMap (Piece.fill value) = text := by
  have noHole : ∀ piece ∈ pieces, piece.fill value = piece.fill id := by
    intro piece member
    cases piece with
    | kept => rfl
    | hole name =>
      obtain ⟨front, behind, same, place, named, isKnown⟩ :=
        skeleton.exists_codePlace shielding member
      rw [free front name behind same place named] at isKnown
      cases isKnown
  rw [List.flatMap_congr noHole]
  exact skeleton.source_eq

/-- A span that begins outside of the spans in front of it is a piece that is kept. -/
theorem exists_kept (shielding : Shielding shields) (skeleton : Skeleton shields known text pieces)
    {front span behind : List Char} (same : text = front ++ (span ++ behind))
    (place : CodePlace shields (span ++ behind) front) (shielded : shields span behind) :
    ∃ before after, pieces = before ++ .kept span :: after ∧ sourceOf before = front := by
  induction skeleton generalizing front with
  | nil =>
    obtain ⟨c, letters, rfl, _⟩ := shielding.begins shielded
    simp at same
  | @span span' rest pieces shielded' _ ih =>
    cases place with
    | start =>
      obtain rfl := shielding.unique shielded' shielded same
      exact ⟨[], pieces, rfl, rfl⟩
    | @span span'' front shielded'' place =>
      rw [List.append_assoc] at same
      obtain rfl := shielding.unique shielded' shielded'' same
      obtain ⟨before, after, rfl, rfl⟩ := ih (List.append_cancel_left same) place
      exact ⟨.kept span' :: before, after, rfl, rfl⟩
    | copy noSpan => exact absurd same (noSpan _ _ shielded')
  | @hole name rest pieces named _ _ ih =>
    obtain ⟨front', rfl, placed⟩ := place.of_letters shielding
      (fun _ => isNameChar_or_delimiter named) shielded same
    rw [List.append_assoc] at same
    obtain ⟨before, after, rfl, rfl⟩ := ih (List.append_cancel_left same) placed
    exact ⟨.hole name :: before, after, rfl, rfl⟩
  | @copy c rest pieces noSpan _ _ ih =>
    cases place with
    | start => exact absurd same.symm (noSpan span behind shielded)
    | span shielded' =>
      rw [List.append_assoc] at same
      exact absurd same.symm (noSpan _ _ shielded')
    | copy _ later =>
      obtain ⟨rfl, sameRest⟩ := List.cons.inj same
      obtain ⟨before, after, rfl, rfl⟩ := ih sameRest later
      exact ⟨.kept [c] :: before, after, rfl, rfl⟩

end Skeleton

end

end PortableSql.Placeholder
