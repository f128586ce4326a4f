import PortableSql.Proofs.Query.Acceptance
import PortableSql.Proofs.Query.ArgumentPlaces
import PortableSql.Proofs.Text.LetterCase

/-!
# Queries that differ in the letter case of called names

Two readings differ at most in the letter case of portable names directly before a parenthesis (`Recasing`). Such
a difference moves nothing: both texts take the same bytes, their tokens begin at the same places, and so do the
pieces of their argument lists and the arguments in these, which again differ in called names only
(`SameButCallees.step`, `SameButCallees.arguments`).
-/
namespace PortableSql.Text

/-- Different characters that are one letter begin names. -/
theorem SameLetter.eq_or_letters {c d : Char} (same : SameLetter c d) :
    c = d ∨ isNameStart c = true ∧ isNameStart d = true := by
  simp only [Query.isNameStart_iff]
  rcases same with rfl | ⟨low, high, small⟩ | ⟨low, high, small⟩
  · exact .inl rfl
  · exact .inr ⟨.inr (.inl ⟨low, high⟩), .inl (by omega)⟩
  · exact .inr ⟨.inl (by omega), .inr (.inl ⟨low, high⟩)⟩

theorem SameLetter.isBlank_eq {c d : Char} (same : SameLetter c d) : isBlank c = isBlank d := by
  rcases same.eq_or_letters with rfl | ⟨first, second⟩
  · rfl
  · rw [Query.isBlank_of_isNameStart first, Query.isBlank_of_isNameStart second]

section
variable {text other : List Char}

theorem takeWhile_isBlank_sameLetters (same : List.Forall₂ SameLetter text other) :
    List.Forall₂ SameLetter (text.takeWhile isBlank) (other.takeWhile isBlank) := by
  induction same with
  | nil => exact .nil
  | cons first _ ih =>
    rw [List.takeWhile_cons, List.takeWhile_cons, first.isBlank_eq]
    split
    · exact .cons first ih
    · exact .nil

theorem allBlank_eq_of_sameLetters (same : List.Forall₂ SameLetter text other) :
    allBlank text = allBlank other := by
  induction same with
  | nil => rfl
  | cons first _ ih =>
    rw [allBlank, List.all_cons, first.isBlank_eq, ← allBlank, ih]
    rfl

end

end PortableSql.Text

namespace PortableSql.Query

open Text

/-! ## Tokens -/

namespace Token.StandsBefore

variable {token : Token} {next : Option Char}

/-- What stands before a word stands before any other one as well. -/
theorem before_name {c d : Char} (stands : token.StandsBefore (some c)) (first : isNameStart c = true)
    (other : isNameStart d = true) : token.StandsBefore (some d) := by
  have inName : isNameChar c = true := by rw [isNameChar, first, Bool.true_or]
  cases stands with
  | quoted opens inside _ =>
    refine .quoted opens inside ?_
    rintro ⟨⟩
    rw [(isNameStart_excludes other).1] at opens
    cases opens
  | comment _ ends =>
    rcases ends with ends | ends
    · cases ends
    · cases ends
      cases first
  | number _ _ ends =>
    have outside := ends c rfl
    rw [isNumberChar, inName] at outside
    cases outside
  | word _ _ ends =>
    have outside := ends c rfl
    rw [inName] at outside
    cases outside
  | symbol noQuote noDigit noLetter _ =>
    refine .symbol noQuote noDigit noLetter fun _ => ?_
    rintro ⟨⟩
    exact (isNameStart_excludes other).2.1 rfl

/-- A word in another letter case is a word. -/
theorem recased {letters others : List Char} (stands : (Token.word letters).StandsBefore next)
    (same : List.Forall₂ SameLetter letters others) : (Token.word others).StandsBefore next := by
  have start {c d : Char} (first : SameLetter c d) (letter : isNameStart c = true) :
      isNameStart d = true := by
    rcases first.eq_or_letters with rfl | ⟨_, second⟩
    · exact letter
    · exact second
  cases stands with
  | word startsName inside ends =>
    cases same with
    | cons first later =>
      refine .word (start first startsName) (fun d member => ?_) ends
      obtain ⟨place, _, found⟩ := List.mem_iff_getElem.1 member
      have each := List.Forall₂.get later (i := place) (by rw [later.length_eq]; assumption) (by assumption)
      simp only [List.get_eq_getElem, found] at each
      rcases each.eq_or_letters with same | ⟨_, second⟩
      · exact same ▸ inside _ (List.getElem_mem _)
      · rw [isNameChar, second, Bool.true_or]

end Token.StandsBefore

/-- Tokens that are the same but for the letter case of portable names directly before a parenthesis. -/
inductive Recasing (catalog : Catalog) : List Token → List Token → Prop
  | nil : Recasing catalog [] []
  | keep {token : Token} {tokens others : List Token} (later : Recasing catalog tokens others) :
      Recasing catalog (token :: tokens) (token :: others)
  | callee {letters letters' : List Char} {tokens others : List Token}
      (known : catalog.containsName (String.ofList letters) = true)
      (same : List.Forall₂ SameLetter letters letters')
      (later : Recasing catalog (.opening :: tokens) (.opening :: others)) :
      Recasing catalog (.word letters :: .opening :: tokens) (.word letters' :: .opening :: others)

variable {catalog : Catalog} {tokens others front back : List Token}

namespace Recasing

theorem refl (tokens : List Token) : Recasing catalog tokens tokens := by
  induction tokens with
  | nil => exact .nil
  | cons _ _ ih => exact .keep ih

theorem append {front' back' : List Token} (recasing : Recasing catalog front front')
    (later : Recasing catalog back back') : Recasing catalog (front ++ back) (front' ++ back') := by
  induction recasing with
  | nil => exact later
  | keep _ ih => exact .keep ih
  | callee known same _ ih => exact .callee known same ih

/-- Where no parenthesis follows, a recasing falls into two. -/
theorem split (recasing : Recasing catalog (front ++ back) others)
    (apart : back.head? ≠ some .opening) :
    ∃ front' back', others = front' ++ back' ∧ Recasing catalog front front' ∧
      Recasing catalog back back' := by
  induction front generalizing others with
  | nil => exact ⟨[], others, rfl, .nil, recasing⟩
  | cons token front ih =>
    rw [List.cons_append] at recasing
    generalize whole : front ++ back = behind at recasing
    cases recasing with
    | keep later =>
      obtain ⟨front', back', rfl, first, second⟩ := ih (whole ▸ later)
      exact ⟨_, back', rfl, .keep first, second⟩
    | callee known same later =>
      cases front with
      | nil =>
        rw [List.nil_append] at whole
        exact absurd (congrArg List.head? whole) apart
      | cons opening front =>
        obtain ⟨rfl, _⟩ := List.cons.inj whole
        obtain ⟨front', back', shape, first, second⟩ := ih (whole ▸ later)
        cases first with
        | keep first =>
          obtain ⟨_, rfl⟩ := List.cons.inj shape
          exact ⟨_, back', rfl, .callee known same (.keep first), second⟩

/-- What does not look at the letters of words is the same for both. -/
theorem map_eq {α : Type} {f : Token → α} (words : ∀ letters letters', f (.word letters) = f (.word letters'))
    (recasing : Recasing catalog tokens others) : tokens.map f = others.map f := by
  induction recasing with
  | nil => rfl
  | keep _ ih => exact congrArg (_ :: ·) ih
  | @callee letters letters' _ _ _ _ _ ih =>
    rw [List.map_cons, words letters letters', ih]
    rfl

theorem filter_isStructural (recasing : Recasing catalog tokens others) :
    tokens.filter Token.isStructural = others.filter Token.isStructural := by
  induction recasing with
  | nil => rfl
  | @keep token _ _ _ ih => rw [List.filter_cons, List.filter_cons, ih]
  | callee _ _ _ ih =>
    rw [List.filter_cons_of_neg (by simp [Token.isStructural]), ih]
    exact (List.filter_cons_of_neg (by simp [Token.isStructural])).symm

theorem isVisible_iff (recasing : Recasing catalog tokens others) : IsVisible tokens ↔ IsVisible others := by
  have visible (tokens : List Token) : IsVisible tokens ↔ false ∈ tokens.map Token.isBlank := by
    simp [IsVisible]
  rw [visible, visible, recasing.map_eq fun _ _ => rfl]

theorem source (recasing : Recasing catalog tokens others) :
    List.Forall₂ SameLetter (Query.source tokens) (Query.source others) := by
  have refl (text : List Char) : List.Forall₂ SameLetter text text :=
    List.forall₂_same.2 fun _ _ => .inl rfl
  induction recasing with
  | nil => exact .nil
  | keep _ ih => exact List.rel_append (refl _) ih
  | callee _ same _ ih => exact List.rel_append same ih

/-- What is left of a text begins in the same way in both readings, or with a word in both. -/
private theorem standsBefore {behind rest : List Char} {token : Token} (recasing : Recasing catalog tokens others)
    (reads : Reads behind tokens rest) (stands : token.StandsBefore behind.head?) :
    token.StandsBefore (Query.source others ++ rest).head? := by
  cases recasing with
  | nil =>
    cases reads
    exact stands
  | @keep first =>
    obtain ⟨_, rfl, standsFirst, _⟩ := Reads.cons_iff.1 reads
    rw [List.head?_append_of_ne_nil _ standsFirst.text_ne_nil] at stands
    rw [source_cons, List.append_assoc, List.head?_append_of_ne_nil _ standsFirst.text_ne_nil]
    exact stands
  | callee _ same _ =>
    obtain ⟨_, rfl, standsFirst, _⟩ := Reads.cons_iff.1 reads
    have standsOther := standsFirst.recased same
    cases standsFirst with
    | word start =>
      cases standsOther with
      | word startOther => exact stands.before_name start startOther

/-- The tokens of the other reading are read from what they make up. -/
theorem reads {text rest : List Char} (recasing : Recasing catalog tokens others)
    (reads : Reads text tokens rest) : Reads (Query.source others ++ rest) others rest := by
  induction recasing generalizing text with
  | nil => exact .nil rest
  | keep later ih =>
    obtain ⟨_, rfl, stands, readsLater⟩ := Reads.cons_iff.1 reads
    rw [source_cons, List.append_assoc]
    exact .cons (later.standsBefore readsLater stands) (ih readsLater)
  | callee _ same later ih =>
    obtain ⟨_, rfl, stands, readsLater⟩ := Reads.cons_iff.1 reads
    rw [source_cons, List.append_assoc]
    exact .cons (later.standsBefore readsLater (stands.recased same)) (ih readsLater)

/-! ## Arguments -/

theorem isPiece_iff (recasing : Recasing catalog tokens others) : IsPiece tokens ↔ IsPiece others :=
  ⟨fun piece => piece.of_filter_eq recasing.filter_isStructural,
    fun piece => piece.of_filter_eq recasing.filter_isStructural.symm⟩

/-- The pieces of a list, the parenthesis that closes it and what follows it. -/
theorem split_list {pieces : List (List Token)} (nonempty : pieces ≠ [])
    (recasing : Recasing catalog (List.intercalate [.comma] pieces ++ .closing :: back) others) :
    ∃ pieces' back', others = List.intercalate [.comma] pieces' ++ .closing :: back' ∧
      List.Forall₂ (Recasing catalog) pieces pieces' ∧ Recasing catalog back back' := by
  induction pieces generalizing others with
  | nil => exact absurd rfl nonempty
  | cons first later ih =>
    cases later with
    | nil =>
      rw [intercalate_cons, List.flatMap_nil, List.append_nil] at recasing
      obtain ⟨front', _, rfl, same, recasing⟩ := recasing.split nofun
      cases recasing with
      | keep behind =>
        refine ⟨[front'], _, ?_, .cons same .nil, behind⟩
        rw [intercalate_cons, List.flatMap_nil, List.append_nil]
    | cons second later =>
      have shape (first second : List Token) (later : List (List Token)) (back : List Token) :
          List.intercalate [.comma] (first :: second :: later) ++ back =
            first ++ .comma :: (List.intercalate [.comma] (second :: later) ++ back) := by
        simp [intercalate_cons]
      rw [shape] at recasing
      obtain ⟨front', _, rfl, sameFirst, recasing⟩ := recasing.split nofun
      cases recasing with
      | keep behindComma =>
        obtain ⟨pieces', back', rfl, each, behind⟩ := ih nofun behindComma
        cases each with
        | @cons _ second' _ later' same each =>
          exact ⟨front' :: second' :: later', back', (shape ..).symm, .cons sameFirst (.cons same each),
            behind⟩

theorem intercalate {pieces pieces' : List (List Token)} (each : List.Forall₂ (Recasing catalog) pieces pieces') :
    Recasing catalog (List.intercalate [.comma] pieces) (List.intercalate [.comma] pieces') := by
  cases each with
  | nil => exact .nil
  | cons first later =>
    rw [intercalate_cons, intercalate_cons]
    refine first.append ?_
    induction later with
    | nil => exact .nil
    | cons second _ ih => exact .keep (second.append ih)

theorem dropWhile_isBlank (recasing : Recasing catalog tokens others) :
    Recasing catalog (tokens.dropWhile Token.isBlank) (others.dropWhile Token.isBlank) := by
  induction recasing with
  | nil => exact .nil
  | keep later ih =>
    rw [List.dropWhile_cons, List.dropWhile_cons]
    split
    · exact ih
    · exact .keep later
  | callee known same later _ => exact .callee known same later

/-- The last token is the same in both: behind a word that is called stands a parenthesis. -/
theorem concat {last : Token} (recasing : Recasing catalog (front ++ [last]) others) :
    ∃ front', others = front' ++ [last] := by
  induction front generalizing others with
  | nil =>
    cases recasing with
    | keep later =>
      cases later
      exact ⟨[], rfl⟩
  | cons token front ih =>
    rw [List.cons_append] at recasing
    generalize whole : front ++ [last] = behind at recasing
    cases recasing with
    | keep later =>
      obtain ⟨front', rfl⟩ := ih (whole ▸ later)
      exact ⟨token :: front', rfl⟩
    | @callee _ letters' _ _ _ _ later =>
      obtain ⟨front', same⟩ := ih (whole ▸ later)
      exact ⟨.word letters' :: front', congrArg _ same⟩

theorem rdropWhile_isBlank (recasing : Recasing catalog tokens others) :
    Recasing catalog (tokens.rdropWhile Token.isBlank) (others.rdropWhile Token.isBlank) := by
  induction tokens using List.reverseRecOn generalizing others with
  | nil =>
    cases recasing
    exact .nil
  | append_singleton tokens last ih =>
    obtain ⟨front, rfl⟩ := recasing.concat
    by_cases blank : last.isBlank = true
    · have apart : last ≠ .opening := by
        rintro rfl
        cases blank
      obtain ⟨front', back', shape, first, second⟩ := recasing.split (by simpa using apart)
      cases second with
      | keep none =>
        cases none
        obtain ⟨rfl, _⟩ := List.append_inj' shape rfl
        rw [List.rdropWhile_concat_pos _ _ _ blank, List.rdropWhile_concat_pos _ _ _ blank]
        exact ih first
    · rw [List.rdropWhile_concat_neg _ _ _ blank, List.rdropWhile_concat_neg _ _ _ blank]
      exact recasing

theorem getLast?_eq (recasing : Recasing catalog tokens others) : tokens.getLast? = others.getLast? := by
  rcases List.eq_nil_or_concat tokens with rfl | ⟨tokens, last, rfl⟩
  · cases recasing
    rfl
  · rw [List.concat_eq_append] at recasing ⊢
    obtain ⟨front, rfl⟩ := recasing.concat
    rw [List.getLast?_concat, List.getLast?_concat]

theorem modifyLast_trimmed (recasing : Recasing catalog tokens others) :
    Recasing catalog (tokens.modifyLast Token.trimmed) (others.modifyLast Token.trimmed) := by
  rcases List.eq_nil_or_concat tokens with rfl | ⟨tokens, last, rfl⟩
  · cases recasing
    exact .nil
  · rw [List.concat_eq_append] at recasing ⊢
    obtain ⟨front, rfl⟩ := recasing.concat
    rw [List.modifyLast_concat, List.modifyLast_concat]
    by_cases apart : last = .opening
    · subst apart
      exact recasing
    · obtain ⟨front', back', shape, first, second⟩ := recasing.split (by simpa using apart)
      cases second with
      | keep none =>
        cases none
        obtain ⟨rfl, _⟩ := List.append_inj' shape rfl
        exact first.append (.keep .nil)

/-- Trimming a piece keeps it a recasing. -/
theorem argumentTokens (recasing : Recasing catalog tokens others) :
    Recasing catalog (Query.argumentTokens tokens) (Query.argumentTokens others) := by
  have sameEnd : endsInComment tokens = endsInComment others := by
    rw [endsInComment, endsInComment, lastToken?, lastToken?, recasing.rdropWhile_isBlank.getLast?_eq]
  rw [Query.argumentTokens, Query.argumentTokens, sameEnd]
  exact recasing.rdropWhile_isBlank.dropWhile_isBlank.modifyLast_trimmed.append (.refl _)

end Recasing

/-! ## Texts -/

/-- Two texts differ at most in the letter case of portable names directly before a parenthesis. -/
def SameButCallees (catalog : Catalog) (text other : List Char) : Prop :=
  ∃ tokens others rest, Scanned text tokens rest ∧ Recasing catalog tokens others ∧
    other = source others ++ rest

/-- The first tokens of two such texts, of which `behind` follows the first one. -/
inductive SameToken (catalog : Catalog) (behind : List Char) : Token → Token → Prop
  | same (token : Token) : SameToken catalog behind token token
  | callee {letters letters' : List Char} (called : behind.head? = some '(')
      (known : catalog.containsName (String.ofList letters) = true)
      (same : List.Forall₂ SameLetter letters letters') :
      SameToken catalog behind (.word letters) (.word letters')

/-- The first token of a text is the first one of its tokens. -/
theorem Scanned.head {c : Char} {cs rest behind : List Char} {token : Token}
    (scanned : Scanned (c :: cs) tokens rest) (found : nextToken? c cs = some (token, behind)) :
    ∃ later, tokens = token :: later ∧ Scanned behind later rest := by
  have behindScanned := scanned_lex behind
  have whole : Scanned (c :: cs) (token :: (lex behind).1) (lex behind).2 :=
    ⟨.of_nextToken? found behindScanned.reads, behindScanned.ends⟩
  obtain ⟨rfl, rfl⟩ := whole.unique scanned
  exact ⟨_, rfl, behindScanned⟩

namespace SameButCallees

variable {text other : List Char}

theorem sameLetters (same : SameButCallees catalog text other) : List.Forall₂ SameLetter text other := by
  obtain ⟨tokens, others, rest, scanned, recasing, rfl⟩ := same
  rw [← scanned.reads.lossless]
  exact List.rel_append recasing.source (List.forall₂_same.2 fun _ _ => .inl rfl)

theorem eq_nil (same : SameButCallees catalog [] other) : other = [] := by
  simpa using same.sameLetters

/-- Where a text begins with a quote that is never closed, the other one is the same. -/
theorem eq_of_unread {c : Char} {cs : List Char} (same : SameButCallees catalog (c :: cs) other)
    (missing : nextToken? c cs = none) : other = c :: cs := by
  obtain ⟨tokens, others, rest, scanned, recasing, rfl⟩ := same
  have nothing := scanned.lex_eq.symm.trans (lex_of_none missing)
  obtain ⟨rfl, rfl⟩ := Prod.mk.inj nothing
  cases recasing
  rfl

/-- Both texts begin with the same token, or with the name of a call, and go on in the same way. -/
theorem step {c : Char} {cs behind : List Char} {token : Token}
    (same : SameButCallees catalog (c :: cs) other) (found : nextToken? c cs = some (token, behind)) :
    ∃ d ds token' behind', other = d :: ds ∧ nextToken? d ds = some (token', behind') ∧
      SameToken catalog behind token token' ∧ SameButCallees catalog behind behind' := by
  obtain ⟨tokens, others, rest, scanned, recasing, rfl⟩ := same
  obtain ⟨later, rfl, scannedLater⟩ := scanned.head found
  have reads := recasing.reads scanned.reads
  obtain ⟨first, others, rfl, sameFirst, recasingLater⟩ : ∃ first others', others = first :: others' ∧
      SameToken catalog behind token first ∧ Recasing catalog later others' := by
    cases recasing with
    | keep recasingLater => exact ⟨_, _, rfl, .same token, recasingLater⟩
    | callee known same recasingLater =>
      obtain ⟨inner, rfl, _⟩ := scannedLater.tail
      exact ⟨_, _, rfl, .callee rfl known same, recasingLater⟩
  obtain ⟨d, ds, shape⟩ := List.exists_cons_of_ne_nil reads.text_ne_nil
  rw [shape] at reads ⊢
  obtain ⟨behind', found', readsLater⟩ := reads.nextToken?
  exact ⟨d, ds, first, behind', rfl, found', sameFirst, later, others, rest, scannedLater, recasingLater,
    readsLater.lossless.symm⟩

end SameButCallees

end PortableSql.Query
