import PortableSql.Proofs.Placeholder.Histories
import PortableSql.Proofs.Placeholder.QuerySkeleton

/-!
# Names that can be registered are tokens that are found

Registering checks a name from both of its ends, while substitution and the filling of templates read a token
from its first delimiter on. Both take the same texts (`recognize?_name_iff`), so every registered name is
found where a scan comes to it (`substituteText_at_name`), and a name that is refused can never be found. A
refused registration leaves no trace in what the registry answers later (`outcomes_register_refused`).
-/
namespace PortableSql.Placeholder

open Calendar Query Text

/-! ## Tokens at the beginning of a text -/

/-- The token at the beginning of a text and the text behind it. -/
def recognize? : List Char → Option (List Char × List Char)
  | [] => none
  | c :: text => if c = delimiter then token? text else none

theorem recognize?_eq_some_iff {text token rest : List Char} :
    recognize? text = some (token, rest) ↔
      isName (String.ofList token) = true ∧ token ++ rest = text := by
  constructor
  · intro found
    cases text with
    | nil => cases found
    | cons c text =>
      rw [recognize?] at found
      split at found
      · rename_i isDelimiter
        subst isDelimiter
        exact ⟨isName_of_token? found, token?_append found⟩
      · cases found
  · rintro ⟨named, rfl⟩
    obtain ⟨text, shape, found⟩ := token?_name named rest
    rw [String.toList_ofList] at shape found
    rw [shape, recognize?, if_pos rfl, found]

/-- The recognizer consumes a text and nothing of what follows it exactly if the text is a name. -/
theorem recognize?_name_iff {name : String} (rest : List Char) :
    recognize? (name.toList ++ rest) = some (name.toList, rest) ↔ isName name = true := by
  rw [recognize?_eq_some_iff, String.ofList_toList]
  exact and_iff_left rfl

theorem exists_register_iff {registry : Registry} {name : String} {value : Value} :
    (∃ after, registry.register name value = (.ok (), after)) ↔ isName name = true := by
  cases named : isName name with
  | true => simp [Registry.register_of_isName named]
  | false => simp [Registry.register_of_not_isName named]

/-! ## Places that a scan reaches -/

/-- A scan for these names that starts in front of two texts stops between them: no quoted span, no comment
and no name in front runs over into the text behind. -/
def Reaches (known : String → Bool) (front behind : List Char) : Prop :=
  ∃ before later, Skeleton Shielded known (front ++ behind) (before ++ later) ∧ sourceOf before = front

namespace Shielded

variable {c : Char} {span front text : List Char}

/-- A span begins wherever a quote or a comment opens. -/
theorem exists_of_first (opens : isQuote c = true ∨ c = '-' ∧ text.head? = some '-') :
    ∃ span rest, Shielded span rest ∧ span ++ rest = c :: text := by
  cases found : Query.nextToken? c text with
  | none =>
    obtain ⟨quoted, inside⟩ := nextToken?_eq_none_iff.1 found
    exact ⟨c :: text, [], .unclosed quoted inside, List.append_nil _⟩
  | some next =>
    obtain ⟨token, rest⟩ := next
    have stands := nextToken?_standsBefore found
    refine ⟨token.text, rest, ?_, nextToken?_append found⟩
    unfold Query.nextToken? at found
    split at found
    · obtain ⟨_, _, same⟩ := Option.map_eq_some_iff.1 found
      cases same
      exact .quoted stands
    · rename_i noQuote
      rw [if_pos (opens.resolve_left noQuote)] at found
      cases found
      exact .comment stands

/-- A span in front of a delimiter is one at the end of a text as well. -/
theorem before_delimiter (shielded : Shielded span (front ++ delimiter :: text)) :
    Shielded span front := by
  cases front with
  | cons c front =>
    generalize whole : c :: front ++ delimiter :: text = behind at shielded
    cases shielded with
    | quoted stands => exact .quoted (by rwa [← whole] at stands)
    | comment stands => exact .comment (by rwa [← whole] at stands)
    | unclosed => cases whole
  | nil =>
    generalize whole : [] ++ delimiter :: text = behind at shielded
    cases shielded with
    | quoted stands =>
      cases stands with
      | quoted opens inside => exact .quoted (.quoted opens inside nofun)
    | comment stands =>
      -- a comment runs to the end of its line, and a delimiter is none
      rw [← whole] at stands
      cases stands with
      | comment _ ends =>
        rcases ends with ends | ends
        · cases ends
        · exact absurd (Option.some.inj ends) (by decide)
    | unclosed => cases whole

end Shielded

/-- The pieces up to a place that is reached in front of a delimiter are those of the text up to there. -/
theorem Skeleton.split {known : String → Bool} {before later : List Piece} {front text : List Char}
    (skeleton : Skeleton Shielded known (front ++ delimiter :: text) (before ++ later))
    (same : sourceOf before = front) :
    Skeleton Shielded known front before ∧ Skeleton Shielded known (delimiter :: text) later := by
  induction before generalizing front with
  | nil =>
    obtain rfl : [] = front := same
    exact ⟨.nil, skeleton⟩
  | cons piece before ih =>
    subst same
    have shape : sourceOf (piece :: before) = piece.fill id ++ sourceOf before := List.flatMap_cons
    rw [shape, List.append_assoc] at skeleton
    rw [shape]
    generalize whole : piece.fill id ++ (sourceOf before ++ delimiter :: text) = all at skeleton
    cases skeleton with
    | span shielded rest =>
      obtain rfl := List.append_cancel_left whole
      obtain ⟨first, second⟩ := ih rest rfl
      exact ⟨.span shielded.before_delimiter first, second⟩
    | hole named isKnown rest =>
      obtain rfl := List.append_cancel_left whole
      obtain ⟨first, second⟩ := ih rest rfl
      exact ⟨.hole named isKnown first, second⟩
    | @copy c _ _ noSpan noHole rest =>
      obtain rfl := (List.cons.inj whole).2
      obtain ⟨first, second⟩ := ih rest rfl
      refine ⟨.copy (fun span behind shielded found => ?_) (fun name behind named isKnown found => ?_)
        first, second⟩
      · -- what opens a span at the end of the shorter text opens one in the longer
        have longer (second : (sourceOf before).head? = some '-') :
            (sourceOf before ++ delimiter :: text).head? = some '-' := by
          rw [List.head?_append, second, Option.some_or]
        have opens := (shielded.first found).imp_right (And.imp_right longer)
        obtain ⟨span', rest', shielded', found'⟩ := Shielded.exists_of_first opens
        exact noSpan span' rest' shielded' found'
      · refine noHole name (behind ++ delimiter :: text) named isKnown ?_
        rw [← List.append_assoc, found]
        rfl

namespace Registry

variable {registry : Registry} {now : DateTime} {name : String}

theorem substituteText_of_skeleton {text : List Char} {pieces : List Piece}
    (skeleton : Skeleton Shielded registry.contains text pieces) :
    (registry.substituteText now text).1 = pieces.flatMap (Piece.fill (registry.textAt now)) := by
  rw [substituteText_eq_filled, ← filled_eq skeleton]
  rfl

/-- Where the scan comes to a registered name, the value of the name stands in its place, and the texts on both
sides of it are substituted as if they stood alone. -/
theorem substituteText_at_name (now : DateTime) (named : isName name = true)
    (isKnown : registry.contains name = true) {front behind : List Char}
    (reaches : Reaches registry.contains front (name.toList ++ behind)) :
    (registry.substituteText now (front ++ (name.toList ++ behind))).1 =
      (registry.substituteText now front).1 ++
        ((registry.textAt now name).toList ++ (registry.substituteText now behind).1) := by
  obtain ⟨before, later, skeleton, source⟩ := reaches
  obtain ⟨text, shape, _⟩ := token?_name named behind
  have parts := skeleton
  rw [shape] at parts
  obtain ⟨first, second⟩ := parts.split source
  rw [← shape] at second
  obtain ⟨later, rfl, rest⟩ := second.of_name Shielded.isShielding named isKnown
  rw [substituteText_of_skeleton skeleton, substituteText_of_skeleton first,
    substituteText_of_skeleton rest, List.flatMap_append, List.flatMap_cons]
  rfl

theorem textAt_insert (value : Value) : (registry.insert name value).textAt now name = (value.read now).1 := by
  rw [textAt, insert, Table.get?_insert_self]
  rfl

theorem contains_insert (value : Value) : (registry.insert name value).contains name = true := by
  rw [contains, Table.contains, insert, Table.get?_insert_self]
  rfl

/-! ## Refused registrations -/

/-- What comes out of events that follow each other, the first one in front. -/
def outcomes (registry : Registry) : List Event → List Outcome
  | [] => []
  | event :: later => (registry.perform event).1 :: (registry.perform event).2.outcomes later

/-- A registration under no name is refused, and nothing after it is answered in another way. -/
theorem outcomes_register_refused (refused : isName name = false) (text : String)
    (earlier later : List Event) :
    ∃ answers others, registry.outcomes (earlier ++ later) = answers ++ others ∧
      answers.length = earlier.length ∧
      registry.outcomes (earlier ++ ⟨now, .register name text⟩ :: later) =
        answers ++ .rejected ⟨name⟩ :: others := by
  induction earlier generalizing registry with
  | nil =>
    have kept : registry.perform ⟨now, .register name text⟩ = (.rejected ⟨name⟩, registry) := by
      simp only [perform, tryRegister, register_of_not_isName refused, Outcome.ofRegistration]
    refine ⟨[], registry.outcomes later, rfl, rfl, ?_⟩
    rw [List.nil_append, outcomes, kept]
    rfl
  | cons event earlier ih =>
    obtain ⟨answers, others, whole, count, inserted⟩ := @ih (registry.perform event).2
    refine ⟨(registry.perform event).1 :: answers, others, ?_, congrArg (· + 1) count, ?_⟩
    · rw [List.cons_append, outcomes, whole]
      rfl
    · rw [List.cons_append, outcomes, inserted]
      rfl

end Registry

/-- A name is registered exactly if the recognizer of tokens consumes it and nothing behind it. The value of a
registered name is what the name is resolved to and substituted by, alone or at any place of a text that the
scan reaches. A name that is refused changes no answer of the registry. -/
theorem registered_names_are_tokens (registry : Registry) (name text : String) :
    (∀ rest : List Char, (∃ after, registry.register name (.fixed text) = (.ok (), after)) ↔
        recognize? (name.toList ++ rest) = some (name.toList, rest)) ∧
      (∀ after, registry.register name (.fixed text) = (.ok (), after) → ∀ now : DateTime,
        (after.substitute now name).1 = text ∧
          (∃ kept, after.resolve now name = some (text, kept)) ∧
          ∀ front behind : List Char, Reaches after.contains front (name.toList ++ behind) →
            (after.substituteText now (front ++ (name.toList ++ behind))).1 =
              (after.substituteText now front).1 ++
                (text.toList ++ (after.substituteText now behind).1)) ∧
      ∀ e after, registry.register name (.fixed text) = (.error e, after) → e = ⟨name⟩ ∧ after = registry ∧
        ∀ (now : DateTime) (earlier later : List Event), ∃ answers others,
          registry.outcomes (earlier ++ later) = answers ++ others ∧ answers.length = earlier.length ∧
            registry.outcomes (earlier ++ ⟨now, .register name text⟩ :: later) =
              answers ++ .rejected e :: others := by
  refine ⟨fun rest => ?_, fun after done now => ?_, fun e after fails => ?_⟩
  · rw [exists_register_iff, recognize?_name_iff]
  · have named : isName name = true := exists_register_iff.1 ⟨after, done⟩
    rw [Registry.register_of_isName named] at done
    obtain rfl := (Prod.mk.inj done).2
    have isKnown : (registry.insert name (.fixed text)).contains name = true := registry.contains_insert _
    have value : (registry.insert name (.fixed text)).textAt now name = text := Registry.textAt_insert _
    have place (front behind : List Char) (reaches : Reaches _ front (name.toList ++ behind)) :=
      Registry.substituteText_at_name now named isKnown reaches
    rw [value] at place
    refine ⟨?_, ?_, place⟩
    · obtain ⟨pieces, skeleton⟩ :=
        exists_skeleton Shielded.isShielding (registry.insert name (.fixed text)).contains name.toList
      have alone := place [] [] ⟨[], pieces, by simpa using skeleton, rfl⟩
      rw [List.nil_append, List.append_nil] at alone
      show String.ofList ((registry.insert name (.fixed text)).substituteText now name.toList).1 = text
      rw [alone]
      simp [Registry.substituteText]
    · obtain ⟨kept, resolves⟩ := Registry.exists_resolve _ now isKnown
      exact ⟨kept, by rw [resolves, value]⟩
  · have refused : isName name = false := by
      rw [Bool.eq_false_iff]
      intro named
      rw [Registry.register_of_isName named] at fails
      cases fails
    rw [Registry.register_of_not_isName refused] at fails
    cases fails
    exact ⟨rfl, rfl, fun now earlier later => Registry.outcomes_register_refused refused text earlier later⟩

/-- A name is found behind a delimiter that begins no name, and two names that share a delimiter are none. -/
theorem registered_names_are_tokens_between_delimiters :
    let now : DateTime := ⟨⟨2000, 1, 1, by decide⟩, ⟨0, 0, 0, 0, by decide⟩⟩
    let after := Registry.empty.insert "#A#" (.fixed "v")
    let refused : Event := ⟨now, .register "#A#B#" "v"⟩
    recognize? ("#A#".toList ++ ['B', '#']) = some ("#A#".toList, ['B', '#']) ∧
      Registry.empty.register "#A#" (.fixed "v") = (.ok (), after) ∧
      Reaches after.contains ['#'] ("#A#".toList ++ ['B', '#']) ∧
      (after.substituteText now (['#'] ++ ("#A#".toList ++ ['B', '#']))).1 =
        (after.substituteText now ['#']).1 ++ ("v".toList ++ (after.substituteText now ['B', '#']).1) ∧
      Registry.empty.register "#A#B#" (.fixed "v") = (.error ⟨"#A#B#"⟩, .empty) ∧
      ∃ answers others, Registry.empty.outcomes ([⟨now, .size⟩] ++ [⟨now, .names⟩]) = answers ++ others ∧
        answers.length = 1 ∧
        Registry.empty.outcomes ([⟨now, .size⟩] ++ refused :: [⟨now, .names⟩]) =
          answers ++ .rejected ⟨"#A#B#"⟩ :: others := by
  intro now after refused
  have done : Registry.empty.register "#A#" (.fixed "v") = (.ok (), after) := rfl
  have fails : Registry.empty.register "#A#B#" (.fixed "v") = (.error ⟨"#A#B#"⟩, .empty) := rfl
  obtain ⟨found, finds, _⟩ := registered_names_are_tokens .empty "#A#" "v"
  obtain ⟨_, _, refuses⟩ := registered_names_are_tokens .empty "#A#B#" "v"
  obtain ⟨later, skeleton⟩ :=
    exists_skeleton Shielded.isShielding after.contains ("#A#".toList ++ ['B', '#'])
  have reaches : Reaches after.contains ['#'] ("#A#".toList ++ ['B', '#']) := by
    refine ⟨[.kept ['#']], later, .copy (fun span rest shielded => ?_) (fun name rest _ isKnown => ?_)
      skeleton, rfl⟩
    · exact Shielded.isShielding.ne_cons (.inr rfl) shielded _
    · by_cases same : name = "#A#"
      · subst same
        intro overlap
        have second : some 'A' = some '#' := congrArg (·[1]?) overlap
        cases second
      · have missing : after.table.get? name = none := Table.get?_insert_of_ne _ same _
        rw [Registry.contains, Table.contains, missing] at isKnown
        cases isKnown
  obtain ⟨_, _, place⟩ := finds after done now
  exact ⟨(found _).1 ⟨after, done⟩, done, reaches, place _ _ reaches, fails,
    (refuses _ _ fails).2.2 now [⟨now, .size⟩] [⟨now, .names⟩]⟩

end PortableSql.Placeholder
