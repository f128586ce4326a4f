import PortableSql.Placeholder.Registry
import PortableSql.Proofs.Query.Lexis

/-!
# Substitution

Where placeholders stand in a text is said on its tokens. A text in which no registered one stands is kept,
and no value is read (`substituteText_of_free`). In any other the text in front of the first one is kept, and
its value follows (`substituteText_cases`).
-/
namespace PortableSql.Placeholder

open Calendar Query Text

/-- Tokens among which no registered placeholder stands. -/
def PlaceholderFree (registry : Registry) (tokens : List Token) : Prop :=
  ∀ token, [.symbol delimiter, token, .symbol delimiter] <:+: tokens →
    registry.contains (String.ofList (delimiter :: (token.text ++ [delimiter]))) = false

theorem PlaceholderFree.of_infix {registry : Registry} {tokens part : List Token}
    (free : PlaceholderFree registry tokens) (inside : part <:+: tokens) :
    PlaceholderFree registry part :=
  fun token triple => free token (triple.trans inside)

theorem PlaceholderFree.of_not_mem {registry : Registry} {tokens : List Token}
    (missing : .symbol delimiter ∉ tokens) : PlaceholderFree registry tokens :=
  fun _ triple => absurd (triple.subset (by simp)) missing

/-- A delimiter by itself is no placeholder. -/
theorem PlaceholderFree.cons_of_not_mem {registry : Registry} {tokens : List Token}
    (missing : .symbol delimiter ∉ tokens) (token : Token) :
    PlaceholderFree registry (token :: tokens) := by
  intro inner triple
  rcases List.infix_cons_iff.1 triple with front | later
  · exact absurd ((List.cons_prefix_cons.1 front).2.subset (by simp)) missing
  · exact absurd (later.subset (by simp)) missing

theorem PlaceholderFree.cons {registry : Registry} {token : Token} {tokens : List Token}
    (different : token ≠ .symbol delimiter) (free : PlaceholderFree registry tokens) :
    PlaceholderFree registry (token :: tokens) := by
  intro inner triple
  rcases List.infix_cons_iff.1 triple with front | later
  · exact absurd (List.cons_prefix_cons.1 front).1.symm different
  · exact free inner later

theorem PlaceholderFree.concat {registry : Registry} {token : Token} {tokens : List Token}
    (different : token ≠ .symbol delimiter) (free : PlaceholderFree registry tokens) :
    PlaceholderFree registry (tokens ++ [token]) := by
  intro inner triple
  rcases List.infix_concat_iff.1 triple with ⟨front, atEnd⟩ | inside
  · have split : (front ++ [.symbol delimiter, inner]) ++ [.symbol delimiter] = tokens ++ [token] := by
      simpa using atEnd
    exact absurd (List.cons.inj (List.append_inj' split rfl).2).1.symm different
  · exact free inner inside

/-! ## Placeholders as tokens -/

theorem delimiter_standsBefore (next : Option Char) :
    (Token.symbol delimiter).StandsBefore next :=
  .symbol rfl rfl rfl fun dash => absurd dash (by decide)

/-- A run of name characters is a single token in front of a delimiter. -/
theorem exists_token_of_name {c : Char} {letters : List Char}
    (inside : ∀ d ∈ c :: letters, isNameChar d = true) :
    ∃ token : Token, token.text = c :: letters ∧ token.StandsBefore (some delimiter) := by
  have later : ∀ d ∈ letters, isNameChar d = true := fun d member =>
    inside d (List.mem_cons_of_mem c member)
  rcases (Bool.or_eq_true _ _).mp (inside c List.mem_cons_self) with start | digit
  · exact ⟨.word (c :: letters), rfl, .word start later fun _ same => Option.some.inj same ▸ rfl⟩
  · refine ⟨.number (c :: letters), rfl, .number digit (fun d member => ?_) fun _ same =>
      Option.some.inj same ▸ rfl⟩
    exact (Bool.or_eq_true _ _).mpr (.inl (later d member))

/-- A placeholder at the beginning of a text is a token before a delimiter. -/
theorem token?_eq_some {text name rest : List Char} (found : token? text = some (name, rest)) :
    ∃ token : Token, text = token.text ++ delimiter :: rest ∧
      name = delimiter :: (token.text ++ [delimiter]) ∧ token.StandsBefore (some delimiter) := by
  unfold token? at found
  split at found
  · rename_i c letters d behind taken dropped
    split at found
    · rename_i same
      cases found
      subst same
      have inside : ∀ d ∈ c :: letters, isNameChar d = true := by
        rw [← taken]
        exact fun d member => List.mem_takeWhile_imp member
      obtain ⟨token, letters', stands⟩ := exists_token_of_name inside
      have whole := List.takeWhile_append_dropWhile (p := isNameChar) (l := text)
      rw [taken, dropped, ← letters'] at whole
      exact ⟨token, whole.symm, by rw [letters'], stands⟩
    · cases found
  · cases found

/-- A placeholder in a text is a token between delimiters. -/
theorem exists_token_of_token? {text name rest : List Char} {tokens : List Token}
    (reads : Reads text tokens []) (found : token? text = some (name, rest)) :
    ∃ token behind, tokens = token :: .symbol delimiter :: behind ∧
      name = delimiter :: (token.text ++ [delimiter]) := by
  obtain ⟨token, rfl, rfl, stands⟩ := token?_eq_some found
  have first : Reads (token.text ++ delimiter :: rest) [token] (delimiter :: rest) :=
    .cons stands (.nil _)
  obtain ⟨later, rfl⟩ := first.exists_append reads
  obtain ⟨_, same, _, reads⟩ := Reads.cons_iff.1 reads
  rw [← List.append_cancel_left same] at reads
  have second : Reads (delimiter :: rest) [.symbol delimiter] rest :=
    .cons (delimiter_standsBefore _) (.nil _)
  obtain ⟨behind, rfl⟩ := second.exists_append reads
  exact ⟨token, behind, rfl, rfl⟩

/-- What stands between two delimiters is a name if it is made of name characters, at least one. -/
theorem isName_between (letters : List Char) :
    isName (String.ofList (delimiter :: (letters ++ [delimiter]))) =
      (!letters.isEmpty && letters.all isNameChar) := by
  simp only [isName, String.toList_ofList, beq_self_eq_true, List.getLast?_concat,
    List.dropLast_concat, Bool.true_and]

theorem token?_of_isName {letters rest : List Char}
    (named : isName (String.ofList (delimiter :: (letters ++ [delimiter]))) = true) :
    token? (letters ++ delimiter :: rest) =
      some (delimiter :: (letters ++ [delimiter]), rest) := by
  rw [isName_between, Bool.and_eq_true, List.all_eq_true] at named
  obtain ⟨nonempty, inside⟩ := named
  have ends : ∀ d, (delimiter :: rest).head? = some d → isNameChar d = false :=
    fun _ same => Option.some.inj same ▸ rfl
  obtain ⟨taken, dropped⟩ := takeWhile_append_of_ends inside ends
  unfold token?
  rw [taken, dropped]
  cases letters with
  | nil => cases nonempty
  | cons => rfl

/-- A text has a first character, and that is no delimiter. -/
def BeginsUndelimited (text : String) : Prop :=
  ∃ c cs, text.toList = c :: cs ∧ c ≠ delimiter

namespace Registry

variable {registry : Registry} {now : DateTime}

theorem resolve_eq_none_iff {name : String} :
    registry.resolve now name = none ↔ registry.contains name = false := by
  rw [resolve, Option.map_eq_none_iff, contains, Table.contains, Option.isSome_eq_false_iff,
    Option.isNone_iff_eq_none]

private theorem readToken?_of_free {text : List Char} {tokens : List Token}
    (reads : Reads text tokens [])
    (free : PlaceholderFree registry (.symbol delimiter :: tokens)) :
    registry.readToken? now text = none := by
  unfold readToken?
  split
  · rfl
  · rename_i found
    obtain ⟨token, behind, rfl, rfl⟩ := exists_token_of_token? reads found
    rw [resolve_eq_none_iff.2 (free token ⟨[], behind, rfl⟩)]
    rfl

private theorem free_cons {text : List Char} {token : Token} {tokens : List Token}
    (named : ∀ name, registry.contains name = true → isName name = true)
    (reads : Reads text tokens [])
    (missing : token = .symbol delimiter → registry.readToken? now text = none)
    (free : PlaceholderFree registry tokens) : PlaceholderFree registry (token :: tokens) := by
  intro inner triple
  rcases List.infix_cons_iff.1 triple with front | later
  · obtain ⟨rfl, behind, rfl⟩ := List.cons_prefix_cons.1 front
    by_contra known
    have isKnown := eq_true_of_ne_false known
    have read := missing rfl
    have whole : (inner.text ++ delimiter :: source behind) ++ [] = text := reads.lossless
    rw [← whole, List.append_nil, readToken?, token?_of_isName (named _ isKnown),
      Option.map_eq_none_iff, resolve_eq_none_iff] at read
    exact known read
  · exact free inner later

/-! ## One token -/

/-- A token at which no registered placeholder begins is copied. -/
theorem substituteText_copy {c : Char} {cs behind : List Char} {token : Token}
    (found : nextToken? c cs = some (token, behind))
    (missing : token = .symbol delimiter → registry.readToken? now behind = none) :
    registry.substituteText now (c :: cs) =
      (token.text ++ (registry.substituteText now behind).1,
        (registry.substituteText now behind).2) := by
  rw [substituteText]
  split
  · rename_i missing
    rw [found] at missing
    cases missing
  · rename_i token' behind' found'
    obtain ⟨rfl, rfl⟩ : token' = token ∧ behind' = behind := by simpa using found'.symm.trans found
    split
    · rename_i read
      split at read
      · rename_i same
        rw [missing same] at read
        cases read
      · cases read
    · rfl

/-- A registered placeholder is replaced by its value. -/
theorem substituteText_replace {after : Registry} {c : Char} {cs behind value rest : List Char}
    (found : nextToken? c cs = some (.symbol delimiter, behind))
    (read : registry.readToken? now behind = some (value, rest, after)) :
    registry.substituteText now (c :: cs) =
      (value ++ (after.substituteText now rest).1, (after.substituteText now rest).2) := by
  rw [substituteText]
  split
  · rename_i missing
    rw [found] at missing
    cases missing
  · rename_i token' behind' found'
    obtain ⟨rfl, rfl⟩ : token' = .symbol delimiter ∧ behind' = behind := by
      simpa using found'.symm.trans found
    split
    · rename_i read'
      rw [if_pos rfl, read] at read'
      cases read'
      rfl
    · rename_i missing
      rw [if_pos rfl, read] at missing
      cases missing

/-! ## All tokens -/

/-- Text in which no registered placeholder stands is kept. -/
theorem substituteText_of_free {text : List Char} {tokens : List Token}
    (reads : Reads text tokens []) (free : PlaceholderFree registry tokens) :
    registry.substituteText now text = (text, registry) := by
  induction tokens generalizing text with
  | nil =>
    cases reads
    rw [substituteText]
  | cons token tokens ih =>
    obtain ⟨c, cs, rfl⟩ := List.exists_cons_of_ne_nil reads.text_ne_nil
    obtain ⟨behind, found, readsBehind⟩ := reads.nextToken?
    have missing : token = .symbol delimiter → registry.readToken? now behind = none := by
      rintro rfl
      exact readToken?_of_free readsBehind free
    have later := ih readsBehind (free.of_infix ⟨[token], [], by simp⟩)
    rw [substituteText_copy found missing, later, ← nextToken?_append found]

/-- Text without delimiters is kept, also where a quoted span in it is never closed. -/
theorem substituteText_of_not_mem {text : List Char} (missing : delimiter ∉ text) :
    registry.substituteText now text = (text, registry) := by
  induction length : text.length using Nat.strong_induction_on generalizing text with
  | _ n ih =>
    cases text with
    | nil => rw [substituteText]
    | cons c cs =>
      cases found : nextToken? c cs with
      | none =>
        rw [substituteText]
        split
        · rfl
        · rename_i found'
          cases found.symm.trans found'
      | some next =>
        obtain ⟨token, behind⟩ := next
        have whole := nextToken?_append found
        have shorter := nextToken?_length found
        rw [List.length_cons] at length
        rw [← whole] at missing ⊢
        have noDelimiter : token = .symbol delimiter → registry.readToken? now behind = none := by
          rintro rfl
          exact absurd (List.mem_append_left _ List.mem_cons_self) missing
        have later := ih behind.length (by omega) (fun member => missing (List.mem_append_right _ member)) rfl
        rw [whole, substituteText_copy found noDelimiter, later, ← whole]

/-- Where a text is not kept, a placeholder stands in it: the text is kept up to there, and the value of
the placeholder follows. -/
theorem substituteText_cases (named : ∀ name, registry.contains name = true → isName name = true)
    (now : DateTime) (text : List Char) :
    (registry.substituteText now text = (text, registry) ∧
        ∀ tokens, Reads text tokens [] → PlaceholderFree registry tokens) ∨
      ∃ front behind name value after rest, text = front ++ delimiter :: behind ∧
        registry.resolve now name = some (value, after) ∧
        (registry.substituteText now text).1 = front ++ (value.toList ++ rest) := by
  induction length : text.length using Nat.strong_induction_on generalizing text with
  | _ n ih =>
    cases text with
    | nil =>
      refine .inl ⟨by rw [substituteText], fun tokens reads => ?_⟩
      rw [reads.eq_nil]
      exact .of_not_mem (by simp)
    | cons c cs =>
      cases found : nextToken? c cs with
      | none =>
        refine .inl ⟨?_, fun tokens reads => ?_⟩
        · rw [substituteText]
          split
          · rfl
          · rename_i found'
            rw [found] at found'
            cases found'
        · cases tokens with
          | nil => cases reads.lossless
          | cons token tokens =>
            obtain ⟨_, found', _⟩ := reads.nextToken?
            rw [found] at found'
            cases found'
      | some next =>
        obtain ⟨token, behind⟩ := next
        have whole := nextToken?_append found
        have shorter := nextToken?_length found
        rw [List.length_cons] at length
        by_cases missing : token = .symbol delimiter → registry.readToken? now behind = none
        · rw [substituteText_copy found missing, ← whole]
          rcases ih behind.length (by omega) behind rfl with
            ⟨kept, free⟩ | ⟨front, rest', name, value, after, rest, shape, resolves, replaced⟩
          · refine .inl ⟨by rw [kept], fun tokens reads => ?_⟩
            have first : Reads (token.text ++ behind) [token] behind :=
              .cons (nextToken?_standsBefore found) (.nil _)
            obtain ⟨later, rfl⟩ := first.exists_append reads
            obtain ⟨_, same, _, reads⟩ := Reads.cons_iff.1 reads
            rw [← List.append_cancel_left same] at reads
            exact free_cons named reads missing (free later reads)
          · refine .inr ⟨token.text ++ front, rest', name, value, after, rest, ?_, resolves, ?_⟩
            · rw [shape, List.append_assoc]
            · rw [replaced, List.append_assoc]
        · obtain ⟨rfl, read⟩ := Classical.not_imp.1 missing
          obtain ⟨⟨value, rest, after⟩, read⟩ := Option.ne_none_iff_exists'.1 read
          have replaced := substituteText_replace found read
          unfold readToken? at read
          split at read
          · cases read
          · obtain ⟨⟨text, after'⟩, resolves, same⟩ := Option.map_eq_some_iff.1 read
            cases same
            exact .inr ⟨[], behind, _, text, after, _, whole.symm, resolves, by rw [replaced]; rfl⟩

/-! ## Values that are no placeholders -/

/-- What stands in the place of a placeholder is seen not to be one: all names are names between
delimiters, and no value begins with one. -/
structure Discernible (registry : Registry) (now : DateTime) : Prop where
  named : ∀ name, registry.contains name = true → isName name = true
  begins : ∀ name value after, registry.resolve now name = some (value, after) →
    BeginsUndelimited value

/-- A text that is kept has no registered placeholder in it. -/
theorem Discernible.free_of_kept (discernible : registry.Discernible now) {text : List Char}
    {tokens : List Token} (kept : (registry.substituteText now text).1 = text)
    (reads : Reads text tokens []) : PlaceholderFree registry tokens := by
  rcases substituteText_cases discernible.named now text with
    ⟨_, free⟩ | ⟨front, behind, name, value, after, rest, rfl, resolves, replaced⟩
  · exact free tokens reads
  · obtain ⟨c, cs, shape, notDelimiter⟩ := discernible.begins _ _ _ resolves
    rw [replaced, shape] at kept
    exact absurd (List.cons.inj (List.append_cancel_left kept)).1 notDelimiter

/-- Where a text differs from another one before any delimiter, substitution does not make it the other
one. -/
theorem Discernible.substituteText_ne (discernible : registry.Discernible now)
    {front lead behind other : List Char} (undelimited : delimiter ∉ lead) (apart : ¬ lead <+: other) :
    (registry.substituteText now (front ++ (lead ++ behind))).1 ≠ front ++ other := by
  intro same
  rcases substituteText_cases discernible.named now (front ++ (lead ++ behind)) with
    ⟨kept, _⟩ | ⟨front', behind', name, value, after, rest, shape, resolves, replaced⟩
  · rw [kept] at same
    exact apart ⟨behind, List.append_cancel_left same⟩
  · obtain ⟨c, cs, begins, notDelimiter⟩ := discernible.begins _ _ _ resolves
    rw [replaced, begins] at same
    -- where the first placeholder stands: behind what differs, or in front of it
    rcases List.append_eq_append_iff.1 shape with ⟨later, rfl, split⟩ | ⟨later, rfl, split⟩
    · rcases List.append_eq_append_iff.1 split with ⟨last, rfl, _⟩ | ⟨last, rfl, inLead⟩
      · rw [List.append_assoc, List.append_assoc] at same
        exact apart ⟨_, List.append_cancel_left same⟩
      · cases last with
        | nil =>
          rw [List.append_nil] at apart
          rw [List.append_assoc] at same
          exact apart ⟨_, List.append_cancel_left same⟩
        | cons d last =>
          obtain ⟨rfl, _⟩ := List.cons.inj inLead
          exact undelimited (by simp)
    · cases later with
      | nil =>
        cases lead with
        | nil => exact apart (List.nil_prefix ..)
        | cons d lead =>
          obtain ⟨rfl, _⟩ := List.cons.inj split
          exact undelimited (by simp)
      | cons d later =>
        obtain ⟨rfl, _⟩ := List.cons.inj split
        rw [List.append_assoc] at same
        exact notDelimiter (List.cons.inj (List.append_cancel_left same)).1

end Registry

end PortableSql.Placeholder
