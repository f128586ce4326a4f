import Mathlib.Tactic.Ring
import PortableSql.Proofs.Catalog.Mentions
import PortableSql.Proofs.Query.ArgumentPlaces
import PortableSql.Proofs.Query.Expansion

/-!
# How much a query grows

A call is replaced by the text of its template and by as many copies of each argument as the template mentions it,
and copies of copies multiply. So what a query is expanded to is bounded by the length of the query, the most that a
template writes by itself for the name of a call, and the most often that one stretch of the query is copied
(`weight_evaluateParts_le`); the latter is a power of the most often that a template mentions an argument, the
exponent being the nesting of the calls (`copiesOf_le_pow`).
-/
namespace PortableSql.Query

open Text

/-! ## Copies -/

section
variable (catalog : Catalog)

mutual

/-- How often a stretch of a part is written at most. Each call around it multiplies its copies by how often the
template mentions the argument that the stretch stands in. -/
def Part.copies : Part → Nat
  | .copy _ => 1
  | .group parts => copiesOf parts
  | .call name arguments =>
    match catalog.resolve name arguments.length with
    | some f => copiesOfEach (f.mentions arguments.length) arguments
    | none => 1

def copiesOf : List Part → Nat
  | [] => 1
  | part :: parts => max part.copies (copiesOf parts)

def copiesOfEach : (Nat → Nat) → List (List Part) → Nat
  | _, [] => 1
  | mentions, argument :: arguments =>
    max (mentions 0 * copiesOf argument) (copiesOfEach (fun index => mentions (index + 1)) arguments)

end

end

variable {catalog : Catalog}

theorem copiesOf_pos (parts : List Part) : 1 ≤ copiesOf catalog parts := by
  induction parts with
  | nil => exact Nat.le_refl 1
  | cons part parts ih => exact Nat.le_trans ih (Nat.le_max_right ..)

theorem copiesOfEach_pos (mentions : Nat → Nat) (arguments : List (List Part)) :
    1 ≤ copiesOfEach catalog mentions arguments := by
  induction arguments generalizing mentions with
  | nil => exact Nat.le_refl 1
  | cons argument arguments ih => exact Nat.le_trans (ih _) (Nat.le_max_right ..)

mutual

private theorem copies_le_pow {most : Nat} (pos : 1 ≤ most)
    (mentions : ∀ name arity f, catalog.resolve name arity = some f → ∀ index, f.mentions arity index ≤ most) :
    ∀ part : Part, part.copies catalog ≤ most ^ part.nesting
  | .copy _ => Nat.le_refl 1
  | .group parts => copiesOf_le_pow pos mentions parts
  | .call name arguments => by
    rw [Part.copies, Part.nesting]
    split
    · rename_i f found
      exact copiesOfEach_le_pow pos mentions _ (mentions _ _ f found) arguments
    · exact Nat.one_le_pow _ _ pos

/-- Each call multiplies the copies of what is in it by at most as often as a template mentions an argument. -/
theorem copiesOf_le_pow {most : Nat} (pos : 1 ≤ most)
    (mentions : ∀ name arity f, catalog.resolve name arity = some f → ∀ index, f.mentions arity index ≤ most) :
    ∀ parts : List Part, copiesOf catalog parts ≤ most ^ nestingOf parts
  | [] => Nat.le_refl 1
  | part :: parts => by
    have first := copies_le_pow pos mentions part
    have later := copiesOf_le_pow pos mentions parts
    rw [copiesOf, nestingOf]
    exact Nat.max_le.2 ⟨first.trans (Nat.pow_le_pow_right pos (Nat.le_max_left ..)),
      later.trans (Nat.pow_le_pow_right pos (Nat.le_max_right ..))⟩

private theorem copiesOfEach_le_pow {most : Nat} (pos : 1 ≤ most)
    (mentions : ∀ name arity f, catalog.resolve name arity = some f → ∀ index, f.mentions arity index ≤ most) :
    ∀ each : Nat → Nat, (∀ index, each index ≤ most) → ∀ arguments : List (List Part),
      copiesOfEach catalog each arguments ≤ most ^ nestingOfEach arguments
  | _, _, [] => Nat.le_refl 1
  | each, bounded, argument :: arguments => by
    have first := Nat.mul_le_mul (bounded 0) (copiesOf_le_pow pos mentions argument)
    have later := copiesOfEach_le_pow pos mentions _ (fun index => bounded (index + 1)) arguments
    rw [← Nat.pow_succ'] at first
    rw [copiesOfEach, nestingOfEach]
    exact Nat.max_le.2 ⟨first.trans (Nat.pow_le_pow_right pos (Nat.le_max_left ..)),
      later.trans (Nat.pow_le_pow_right pos (Nat.le_max_right ..))⟩

end

/-! ## The bound -/

/-- By themselves, the templates of a catalog weigh at most so many times what the name of a call and its
parentheses weigh. -/
def AddsAtMost (catalog : Catalog) (weigh : Char → Nat) (factor : Nat) : Prop :=
  ∀ letters arity f, catalog.resolve (String.ofList letters) arity = some f →
    weight weigh (f.ownText arity) ≤ factor * weight weigh (letters ++ ['(', ')'])

variable {weigh : Char → Nat} {factor : Nat}

/-- What is bounded with different numbers of copies is bounded together with the greater one. -/
private theorem add_le_mul_max {copies copies' first later length length' : Nat}
    (bound : first ≤ factor * copies * length) (bound' : later ≤ factor * copies' * length') :
    first + later ≤ factor * max copies copies' * (length + length') := by
  have front : factor * copies * length ≤ factor * max copies copies' * length :=
    Nat.mul_le_mul_right _ (Nat.mul_le_mul_left _ (Nat.le_max_left ..))
  have back : factor * copies' * length' ≤ factor * max copies copies' * length' :=
    Nat.mul_le_mul_right _ (Nat.mul_le_mul_left _ (Nat.le_max_right ..))
  rw [Nat.mul_add]
  exact Nat.add_le_add (bound.trans front) (bound'.trans back)

/-- An argument is a part of its piece. -/
private theorem weight_argumentText_le {piece : List Token} (delimited : Delimited piece) :
    weight weigh (argumentText piece) ≤ weight weigh (source piece) := by
  by_cases visible : IsVisible piece
  · obtain ⟨back, whole⟩ := delimited.source_eq visible
    rw [whole, weight_append, weight_append]
    omega
  · rw [argumentText_of_blank visible]
    exact Nat.zero_le _

private theorem weight_source_intercalate (piece : List Token) (pieces : List (List Token)) :
    weight weigh (source piece) + weight weigh (source (List.intercalate [.comma] pieces)) ≤
      weight weigh (source (List.intercalate [.comma] (piece :: pieces))) := by
  cases pieces with
  | nil => simp [List.intercalate]
  | cons second pieces =>
    rw [intercalate_cons [.comma] second pieces, intercalate_cons]
    simp

/-- A call and what is behind it, where its arguments are bounded by what stands in its parentheses. -/
private theorem weight_call_cons_le (adds : AddsAtMost catalog weigh factor) {letters : List Char}
    {arguments : List (List Part)} {parts : List Part} {inner tokens : List Token}
    (resolves : (catalog.resolve (String.ofList letters) arguments.length).isSome = true)
    (each : ∀ mentions : Nat → Nat, ∑ index ∈ Finset.range arguments.length,
        mentions index * weight weigh ((evaluateEach catalog arguments).getD index []) ≤
      factor * copiesOfEach catalog mentions arguments * weight weigh (source inner))
    (behind : weight weigh (evaluateParts catalog parts) ≤
      factor * copiesOf catalog parts * weight weigh (source tokens)) :
    weight weigh (evaluateParts catalog (.call (String.ofList letters) arguments :: parts)) ≤
      factor * copiesOf catalog (.call (String.ofList letters) arguments :: parts) *
        weight weigh (source (.word letters :: .opening :: (inner ++ .closing :: tokens))) := by
  obtain ⟨f, overload⟩ := Option.isSome_iff_exists.1 resolves
  have copies : (Part.call (String.ofList letters) arguments).copies catalog =
      copiesOfEach catalog (f.mentions arguments.length) arguments := by
    simp only [Part.copies, overload]
  have own : weight weigh (f.ownText arguments.length) ≤ factor * 1 * weight weigh (letters ++ ['(', ')']) := by
    rw [Nat.mul_one]
    exact adds letters _ f overload
  have call := add_le_mul_max own (each (f.mentions arguments.length))
  rw [Nat.max_eq_right (copiesOfEach_pos ..)] at call
  have written : weight weigh (source (.word letters :: .opening :: (inner ++ .closing :: tokens))) =
      weight weigh (letters ++ ['(', ')']) + weight weigh (source inner) + weight weigh (source tokens) := by
    simp [Token.text]
    omega
  rw [evaluateParts, evaluate_call overload, weight_append, PortableFunction.weight_expandText,
    evaluateEach_length, written, copiesOf, copies]
  exact add_le_mul_max call behind

/-- What stands in the parentheses of a call, and what is behind it. -/
private theorem Reads.of_call {text rest letters : List Char} {inner tokens : List Token}
    (reads : Reads text (.word letters :: .opening :: (inner ++ .closing :: tokens)) rest) :
    ∃ list behind, Reads list (inner ++ [.closing]) behind ∧ Reads behind tokens rest := by
  obtain ⟨_, _, _, reads⟩ := Reads.cons_iff.1 reads
  obtain ⟨list, _, _, reads⟩ := Reads.cons_iff.1 reads
  rw [List.append_cons] at reads
  exact ⟨list, _, reads.of_append⟩

mutual

/-- What a query is expanded to weighs no more than the query, times what a template adds at most, times the number
of copies that are made of one stretch at most. -/
theorem weight_evaluateParts_le (pos : 1 ≤ factor) (adds : AddsAtMost catalog weigh factor) :
    ∀ {text rest : List Char} {tokens : List Token} {parts : List Part},
      Derives catalog tokens parts → PartsResolve catalog parts → Reads text tokens rest →
      weight weigh (evaluateParts catalog parts) ≤
        factor * copiesOf catalog parts * weight weigh (source tokens)
  | _, _, _, _, .nil, _, _ => Nat.zero_le _
  | _, _, _, _, @Derives.copy _ token _ _ _ _ _ later, ⟨_, resolves⟩, reads => by
    obtain ⟨_, _, _, reads⟩ := Reads.cons_iff.1 reads
    have first : weight weigh token.text ≤ factor * 1 * weight weigh token.text :=
      Nat.le_mul_of_pos_left _ (Nat.mul_pos pos Nat.one_pos)
    have bound := add_le_mul_max first (weight_evaluateParts_le pos adds later resolves reads)
    rw [evaluateParts, Part.evaluate, copiesOf, Part.copies, source_cons, weight_append, weight_append]
    exact bound
  | _, _, _, _, @Derives.group _ inner tokens inside parts within later, ⟨resolvesWithin, resolves⟩,
      reads => by
    obtain ⟨_, _, _, reads⟩ := Reads.cons_iff.1 reads
    obtain ⟨_, _, _, readsLater⟩ := Reads.cons_iff.1 reads.of_append.2
    have delimiters : weight weigh ['(', ')'] ≤ factor * 1 * weight weigh ['(', ')'] :=
      Nat.le_mul_of_pos_left _ (Nat.mul_pos pos Nat.one_pos)
    have first := add_le_mul_max delimiters
      (weight_evaluateParts_le pos adds within resolvesWithin reads.of_append.1)
    rw [Nat.max_eq_right (copiesOf_pos _)] at first
    have bound := add_le_mul_max first (weight_evaluateParts_le pos adds later resolves readsLater)
    have sql : weight weigh (evaluateParts catalog (.group inside :: parts)) = weight weigh ['(', ')'] +
        weight weigh (evaluateParts catalog inside) + weight weigh (evaluateParts catalog parts) := by
      simp [evaluateParts, Part.evaluate]
      omega
    have written : weight weigh (source (.opening :: (inner ++ .closing :: tokens))) =
        weight weigh ['(', ')'] + weight weigh (source inner) + weight weigh (source tokens) := by
      simp [Token.text]
      omega
    rw [sql, written, copiesOf, Part.copies]
    exact bound
  | _, _, _, _, .emptyCall _ _ later, ⟨⟨resolvesName, _⟩, resolves⟩, reads => by
    obtain ⟨_, _, _, reads⟩ := reads.of_call
    exact weight_call_cons_le adds resolvesName (fun _ => Nat.zero_le _)
      (weight_evaluateParts_le pos adds later resolves reads)
  | _, _, _, _, .call _ _ _ each later, ⟨⟨resolvesName, resolvesEach⟩, resolves⟩, reads => by
    obtain ⟨_, _, list, reads⟩ := reads.of_call
    exact weight_call_cons_le adds resolvesName
      (sum_evaluateEach_le pos adds each resolvesEach (delimited_of_reads list))
      (weight_evaluateParts_le pos adds later resolves reads)

/-- The arguments of a list, each as often as it is mentioned. -/
private theorem sum_evaluateEach_le (pos : 1 ≤ factor) (adds : AddsAtMost catalog weigh factor) :
    ∀ {pieces : List (List Token)} {arguments : List (List Part)},
      DerivesEach catalog pieces arguments → EachResolves catalog arguments →
      (∀ piece ∈ pieces, Delimited piece) → ∀ mentions : Nat → Nat,
      ∑ index ∈ Finset.range arguments.length,
          mentions index * weight weigh ((evaluateEach catalog arguments).getD index []) ≤
        factor * copiesOfEach catalog mentions arguments *
          weight weigh (source (List.intercalate [.comma] pieces))
  | _, _, .nil, _, _, _ => Nat.zero_le _
  | _, _, @DerivesEach.cons _ piece tokens pieces parts arguments reads argument later,
      ⟨_, resolvesFirst, resolves⟩, delimited, mentions => by
    obtain ⟨delimitedFirst, delimitedLater⟩ := List.forall_mem_cons.1 delimited
    have first := weight_evaluateParts_le pos adds argument resolvesFirst reads
    rw [reads.source_eq] at first
    have copied : mentions 0 * weight weigh (evaluateParts catalog parts) ≤
        factor * (mentions 0 * copiesOf catalog parts) * weight weigh (source piece) := by
      calc mentions 0 * weight weigh (evaluateParts catalog parts)
          ≤ mentions 0 * (factor * copiesOf catalog parts * weight weigh (source piece)) :=
            Nat.mul_le_mul_left _ (first.trans (Nat.mul_le_mul_left _ (weight_argumentText_le delimitedFirst)))
        _ = factor * (mentions 0 * copiesOf catalog parts) * weight weigh (source piece) := by ring
    have bound := add_le_mul_max copied
      (sum_evaluateEach_le pos adds later resolves delimitedLater fun index => mentions (index + 1))
    rw [List.length_cons, Finset.sum_range_succ', Nat.add_comm]
    exact bound.trans (Nat.mul_le_mul_left _ (weight_source_intercalate piece pieces))

end

end PortableSql.Query
