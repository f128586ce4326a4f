import PortableSql.Proofs.Query.ArgumentTokens
import PortableSql.Proofs.Query.Expansion

/-!
# Text without calls

Balanced text in which no call is opened is expanded to itself (`expandFragment_of_plain`), and a call
whose arguments are such texts is expanded to the template with their texts in it
(`expandFragment_of_plainCall`). Where calls are opened, the text in front of the first one is copied
(`Derives.first_call`).
-/
namespace PortableSql.Query

open Text

variable {catalog : Catalog} {limit levels : Nat}

/-- Tokens none of which opens a call. -/
def CallFree (catalog : Catalog) (tokens : List Token) : Prop :=
  ∀ letters, [.word letters, .opening] <:+: tokens →
    catalog.containsName (String.ofList letters) = false

theorem CallFree.of_infix {tokens part : List Token} (free : CallFree catalog tokens)
    (inside : part <:+: tokens) : CallFree catalog part :=
  fun letters pair => free letters (pair.trans inside)

theorem CallFree.not_call {letters : List Char} {rest : List Token}
    (free : CallFree catalog (.word letters :: .opening :: rest)) :
    catalog.containsName (String.ofList letters) = false :=
  free letters ⟨[], rest, rfl⟩

theorem CallFree.tail {token : Token} (free : CallFree catalog (token :: tokens)) :
    CallFree catalog tokens :=
  free.of_infix ⟨[token], [], by simp⟩

theorem CallFree.not_opensCall {token : Token} (free : CallFree catalog (token :: tokens)) :
    ¬ OpensCall catalog token tokens := by
  rintro ⟨letters, rfl, next, known⟩
  obtain ⟨behind, rfl⟩ := List.head?_eq_some_iff.1 next
  rw [free.not_call] at known
  cases known

theorem CallFree.cons {token : Token} {tokens : List Token} (noCall : ¬ OpensCall catalog token tokens)
    (free : CallFree catalog tokens) : CallFree catalog (token :: tokens) := by
  intro letters pair
  rcases List.infix_cons_iff.1 pair with front | later
  · obtain ⟨rfl, behind, rfl⟩ := List.cons_prefix_cons.1 front
    by_contra known
    exact noCall ⟨letters, rfl, rfl, eq_true_of_ne_false known⟩
  · exact free letters later

/-- No call is opened across a parenthesis. -/
theorem CallFree.append_closing {inner tokens : List Token} (within : CallFree catalog inner)
    (later : CallFree catalog tokens) : CallFree catalog (inner ++ .closing :: tokens) := by
  induction inner with
  | nil => exact later.cons fun ⟨_, same, _⟩ => by cases same
  | cons token inner ih =>
    refine (ih within.tail).cons ?_
    rintro ⟨letters, rfl, next, known⟩
    cases inner with
    | nil => cases next
    | cons first inner =>
      cases next
      rw [within.not_call] at known
      cases known

/-- Where no call is opened, all is copied. -/
theorem CallFree.evaluateParts {tokens : List Token} {parts : List Part}
    (free : CallFree catalog tokens) (derives : Derives catalog tokens parts) :
    evaluateParts catalog parts = source tokens := by
  induction length : tokens.length using Nat.strong_induction_on generalizing tokens parts with
  | _ n ih =>
    cases derives with
    | nil => rfl
    | @copy token tokens _ _ _ _ later =>
      have rest := ih tokens.length (by simp [← length]) free.tail later rfl
      simp [Query.evaluateParts, Part.evaluate, rest]
    | @group inner tokens _ _ within later =>
      have whole : n = inner.length + tokens.length + 2 := by
        simp only [← length, List.length_cons, List.length_append]
        omega
      have inside := ih inner.length (by omega)
        (free.of_infix ⟨[.opening], .closing :: tokens, by simp⟩) within rfl
      have rest := ih tokens.length (by omega)
        (free.of_infix ⟨.opening :: (inner ++ [.closing]), [], by simp⟩) later rfl
      simp [Query.evaluateParts, Part.evaluate, inside, rest, Token.text]
    | emptyCall known =>
      rw [free.not_call] at known
      cases known
    | call known =>
      rw [free.not_call] at known
      cases known

/-- Only words open calls. -/
theorem CallFree.of_no_word {tokens : List Token} (noWord : ∀ letters, .word letters ∉ tokens) :
    CallFree catalog tokens := by
  rintro letters ⟨front, back, shape⟩
  exact absurd (by rw [← shape]; simp) (noWord letters)

/-- Balanced tokens that open no call stand for themselves. -/
theorem Balanced.hasTree {depth : Nat} {tokens : List Token} (balanced : Balanced tokens)
    (free : CallFree catalog tokens) : HasTree catalog (depth + 1) tokens (source tokens) := by
  induction balanced with
  | nil => exact .nil
  | @other token tokens notOpening notClosing _ ih =>
    exact .copy notOpening notClosing free.not_opensCall (ih free.tail)
  | @group inner tokens _ _ ihInner ih =>
    have inside := ihInner (free.of_infix ⟨[.opening], .closing :: tokens, by simp⟩)
    have rest := ih (free.of_infix ⟨.opening :: (inner ++ [.closing]), [], by simp⟩)
    have whole := inside.group rest
    rw [source_cons, source_append, source_cons]
    exact whole

/-- Only balanced tokens have a tree. -/
theorem Derives.balanced {tokens : List Token} {parts : List Part}
    (derives : Derives catalog tokens parts) : Balanced tokens := by
  cases derives with
  | nil => exact .nil
  | copy notOpening notClosing _ later => exact .other notOpening notClosing later.balanced
  | group within later => exact .group within.balanced later.balanced
  | emptyCall _ blank later =>
    have blanks := (isList_of_blank blank).isPiece _ List.mem_cons_self
    exact .other (by simp) (by simp) (.group blanks.balanced later.balanced)
  | call _ list _ _ later =>
    exact .other (by simp) (by simp) (.group list.balanced later.balanced)

/-- The first call in a query: what stands in front of it is copied, and its template follows. -/
theorem Derives.first_call {tokens : List Token} {parts : List Part}
    (derives : Derives catalog tokens parts) (resolves : PartsResolve catalog parts) :
    CallFree catalog tokens ∨
      ∃ front letters rest f texts behind, tokens = front ++ .word letters :: .opening :: rest ∧
        catalog.resolve (String.ofList letters) texts.length = some f ∧
        Query.evaluateParts catalog parts = source front ++ (f.expandText texts ++ behind) := by
  cases derives with
  | nil => exact .inl (.of_no_word (by simp))
  | @copy token tokens parts _ _ noCall later =>
    rcases later.first_call resolves.2 with
      free | ⟨front, letters, rest, f, texts, behind, rfl, overload, value⟩
    · exact .inl (free.cons noCall)
    · refine .inr ⟨token :: front, letters, rest, f, texts, behind, rfl, overload, ?_⟩
      rw [Query.evaluateParts, value, source_cons, List.append_assoc]
      rfl
  | @group inner tokens inside parts within later =>
    rcases within.first_call resolves.1 with
      free | ⟨front, letters, rest, f, texts, behind, rfl, overload, value⟩
    · have copied := free.evaluateParts within
      rcases later.first_call resolves.2 with
        freeLater | ⟨front, letters, rest, f, texts, behind, rfl, overload, value⟩
      · refine .inl ((free.append_closing freeLater).cons ?_)
        rintro ⟨_, same, _⟩
        cases same
      · refine .inr ⟨.opening :: (inner ++ .closing :: front), letters, rest, f, texts, behind,
          by simp, overload, ?_⟩
        simp [Query.evaluateParts, Part.evaluate, copied, value, Token.text]
    · refine .inr ⟨.opening :: front, letters, rest ++ .closing :: tokens, f, texts,
        behind ++ ')' :: Query.evaluateParts catalog parts, by simp, overload, ?_⟩
      simp [Query.evaluateParts, Part.evaluate, value, Token.text]
  | @emptyCall letters blanks tokens parts =>
    obtain ⟨f, overload⟩ := Option.isSome_iff_exists.1 resolves.1.1
    refine .inr ⟨[], letters, blanks ++ .closing :: tokens, f, [], Query.evaluateParts catalog parts,
      rfl, overload, ?_⟩
    rw [Query.evaluateParts, evaluate_call overload]
    rfl
  | @call letters pieces tokens arguments parts =>
    obtain ⟨f, overload⟩ := Option.isSome_iff_exists.1 resolves.1.1
    refine .inr ⟨[], letters, _, f, evaluateEach catalog arguments,
      Query.evaluateParts catalog parts, rfl, by rw [evaluateEach_length, overload], ?_⟩
    rw [Query.evaluateParts, evaluate_call overload]
    rfl

/-- Text without calls is expanded to itself. -/
theorem expandFragment_of_plain {fragment : Fragment} {tokens : List Token}
    (reads : Reads fragment.text tokens []) (balanced : Balanced tokens)
    (free : CallFree catalog tokens) :
    expandFragment catalog limit (levels + 1) fragment = .ok fragment.text := by
  have whole := reads.source_eq
  rw [expandFragment_eq_ok_iff, ← whole]
  rw [← whole] at reads
  exact ⟨tokens, reads, balanced.hasTree free⟩

/-- A call whose arguments hold no calls is replaced by the template with the arguments in it. -/
theorem expandFragment_of_plainCall {letters : List Char} {pieces : List (List Token)}
    {fragment : Fragment} {f : PortableFunction}
    (reads : Reads fragment.text
      (.word letters :: .opening :: (List.intercalate [.comma] pieces ++ [.closing])) [])
    (known : catalog.containsName (String.ofList letters) = true) (isList : IsList pieces)
    (visible : ∀ piece ∈ pieces, IsVisible piece)
    (free : ∀ piece ∈ pieces, CallFree catalog (argumentTokens piece))
    (overload : catalog.resolve (String.ofList letters) pieces.length = some f) :
    expandFragment catalog limit (levels + 2) fragment =
      .ok (f.expandText (pieces.map argumentText)) := by
  have delimited : ∀ piece ∈ pieces, Delimited piece := by
    obtain ⟨_, _, _, reads⟩ := Reads.cons_iff.1 reads
    obtain ⟨_, _, _, reads⟩ := Reads.cons_iff.1 reads
    exact delimited_of_reads reads
  have each : List.Forall₂ (fun text value => ∃ tokens, Reads text tokens [] ∧
      HasTree catalog (levels + 1) tokens value) (pieces.map argumentText)
      (pieces.map argumentText) := by
    rw [List.forall₂_same]
    intro text member
    obtain ⟨piece, among, rfl⟩ := List.mem_map.1 member
    have readsArgument := reads_argumentText (delimited piece among)
    have balanced := (isList.isPiece piece among).argumentTokens.balanced
    have tree : HasTree catalog (levels + 1) _ _ := balanced.hasTree (free piece among)
    have whole := readsArgument.source_eq
    rw [whole] at tree
    exact ⟨_, readsArgument, tree⟩
  have tree : HasTree catalog (levels + 2) _ _ :=
    .call known isList delimited (.each visible) each (by rw [List.length_map, overload]) .nil
  rw [List.append_nil] at tree
  exact expandFragment_eq_ok_iff.2 ⟨_, reads, tree⟩

end PortableSql.Query
