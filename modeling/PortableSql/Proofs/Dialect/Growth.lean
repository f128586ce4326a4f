import PortableSql.Proofs.Catalog.Registration
import PortableSql.Proofs.Placeholder.Substitution
import PortableSql.Proofs.Query.ArgumentTokens
import PortableSql.Proofs.Query.Growth
import PortableSql.Proofs.Text.LetterCase
import PortableSql.Query.Translate

/-!
# How much translation writes

Main statement: what an engine makes of a query without placeholders is at most five times as long as the query for
each copy that is made of one stretch of it, and the number of the copies is bounded by a power whose exponent is the
nesting of the calls (`byteLength_translate_le`). Two engines copy no argument twice, so that there the translation
is linear. SQLite writes the argument of a ceiling three times, and nested ceilings grow accordingly
(`byteLength_nestedCeilings`).
-/
namespace PortableSql

open Calendar Placeholder Query Text

namespace Dialect

/-- How often a template of the engine mentions one argument at most. -/
def mostMentions : Dialect → Nat
  | .postgres | .mySql => 1
  | .sqlServer => 2
  | .sqlite => 3

/-- Whether a template by itself takes at most five times the bytes of the name and the parentheses of a call, and
mentions no argument more often than this. -/
private def isModest (most : Nat) (f : PortableFunction) : Bool :=
  byteLength (f.ownText f.arity) ≤ 5 * (byteLength f.name.toList + 2) &&
    !(f.ownText f.arity).contains delimiter &&
    (Catalog.parameters f.arity f.template.toList).all fun index => f.mentions f.arity index ≤ most

variable {dialect : Dialect} {name : String} {arity : Nat} {f : PortableFunction}

private theorem isModest_of_le {least most : Nat} (within : least ≤ most) (modest : isModest least f = true) :
    isModest most f = true := by
  simp only [isModest, Bool.and_eq_true, List.all_eq_true, decide_eq_true_eq] at modest ⊢
  exact ⟨modest.1, fun index member => (modest.2 index member).trans within⟩

private theorem isModest_of_resolve (found : dialect.catalog.resolve name arity = some f) :
    isModest dialect.mostMentions f = true := by
  have own : all.all (fun dialect => dialect.profile.functions.all (isModest dialect.mostMentions)) = true := by
    decide +kernel
  have shared : sharedFunctions.all (isModest 1) = true := by
    decide +kernel
  have among : dialect ∈ all := by cases dialect <;> decide
  have some : 1 ≤ dialect.mostMentions := by cases dialect <;> decide
  rcases (resolve_catalog_eq_some found).2 with member | ⟨member, _⟩
  · exact List.all_eq_true.1 (List.all_eq_true.1 own dialect among) f member
  · exact isModest_of_le some (List.all_eq_true.1 shared f member)

/-- The templates of an engine mention no argument more often than this. -/
theorem mentions_le (found : dialect.catalog.resolve name arity = some f) (index : Nat) :
    f.mentions arity index ≤ dialect.mostMentions := by
  have modest := isModest_of_resolve found
  have same : f.arity = arity := congrArg Signature.arity (resolve_catalog_eq_some found).1
  simp only [isModest, Bool.and_eq_true, List.all_eq_true, decide_eq_true_eq, same] at modest
  by_cases member : index ∈ Catalog.parameters arity f.template.toList
  · exact modest.2 index member
  · rw [PortableFunction.mentions, List.count_eq_zero_of_not_mem member]
    exact Nat.zero_le _

/-- By itself a template takes at most five times the bytes of the name and the parentheses of a call. -/
theorem addsAtMost_bytes (dialect : Dialect) : AddsAtMost dialect.catalog Char.utf8Size 5 := by
  intro letters arity f found
  have modest := isModest_of_resolve found
  obtain ⟨same, _⟩ := resolve_catalog_eq_some found
  have name : SameUpToCase f.name (String.ofList letters) :=
    foldCase_eq_iff.1 (congrArg Signature.name same)
  have length := byteLength_eq_of_sameLetters name
  rw [String.toList_ofList] at length
  have arity : f.arity = arity := congrArg Signature.arity same
  simp only [isModest, Bool.and_eq_true, decide_eq_true_eq, length, arity] at modest
  rw [weight_utf8Size, weight_utf8Size, byteLength_append]
  exact modest.1.1

/-- What counts for a delimiter and nothing else. -/
private def weighDelimiter (c : Char) : Nat :=
  if c = delimiter then 1 else 0

private theorem weight_weighDelimiter_eq_zero_iff {text : List Char} :
    weight weighDelimiter text = 0 ↔ delimiter ∉ text := by
  induction text with
  | nil => simp
  | cons c text ih =>
    rw [weight_cons, Nat.add_eq_zero_iff, ih, List.mem_cons, not_or, weighDelimiter, eq_comm (a := delimiter)]
    simp

private theorem addsAtMost_delimiters (dialect : Dialect) :
    AddsAtMost dialect.catalog weighDelimiter 1 := by
  intro letters arity f found
  have modest := isModest_of_resolve found
  have same : f.arity = arity := congrArg Signature.arity (resolve_catalog_eq_some found).1
  simp only [isModest, Bool.and_eq_true, Bool.not_eq_true', List.contains_eq_mem, decide_eq_false_iff_not,
    same] at modest
  rw [weight_weighDelimiter_eq_zero_iff.2 modest.1.2]
  exact Nat.zero_le _

/-! ## Nested ceilings -/

/-- How SQLite writes the least integer that is not below a value. -/
private def ceiling : PortableFunction :=
  .builtin "AFCeiling" 1 "(cast(<p1> as integer) + (<p1> > cast(<p1> as integer)))"
    "Smallest integer not below the value"

private theorem resolve_ceiling : sqlite.catalog.resolve "AFCeiling" 1 = some ceiling := by
  have own : Catalog.lastNamed sqlite.profile.functions "AFCeiling" 1 = some ceiling := by
    decide
  rw [resolve_catalog, own]
  rfl

private theorem ceiling_facts : byteLength (ceiling.ownText 1) = 44 ∧ delimiter ∉ ceiling.ownText 1 ∧
    ceiling.mentions 1 0 = 3 := by
  decide +kernel

private theorem weight_ceiling {weigh : Char → Nat} (argument : List Char) :
    weight weigh (ceiling.expandText [argument]) =
      weight weigh (ceiling.ownText 1) + 3 * weight weigh argument := by
  rw [PortableFunction.weight_expandText, List.length_singleton, Finset.sum_range_one, ceiling_facts.2.2]
  rfl

/-- The ceiling of the ceiling of the number one, and so on. -/
def nestedCeilings : Nat → List Token
  | 0 => [.number ['1']]
  | levels + 1 =>
    .word ['A', 'F', 'C', 'e', 'i', 'l', 'i', 'n', 'g'] :: .opening :: (nestedCeilings levels ++ [.closing])

private def ceilingsSql : Nat → List Char
  | 0 => ['1']
  | levels + 1 => ceiling.expandText [ceilingsSql levels]

private theorem delimiter_not_mem_ceilingsSql (levels : Nat) : delimiter ∉ ceilingsSql levels := by
  rw [← weight_weighDelimiter_eq_zero_iff]
  induction levels with
  | zero => rfl
  | succ levels ih =>
    rw [ceilingsSql, weight_ceiling, ih, weight_weighDelimiter_eq_zero_iff.2 ceiling_facts.2.1]

private theorem byteLength_ceilingsSql (levels : Nat) : byteLength (ceilingsSql levels) + 22 = 23 * 3 ^ levels := by
  induction levels with
  | zero => rfl
  | succ levels ih =>
    rw [ceilingsSql, ← weight_utf8Size, weight_ceiling, weight_utf8Size, weight_utf8Size, ceiling_facts.1,
      Nat.pow_succ]
    omega

private theorem isPiece_nestedCeilings (levels : Nat) : IsPiece (nestedCeilings levels) := by
  induction levels with
  | zero => exact .other nofun nofun nofun .nil
  | succ levels ih => exact .other nofun nofun nofun (.group ih.balanced .nil)

private theorem reads_nestedCeilings (levels : Nat) (rest : List Char) (ends : rest = [] ∨ rest.head? = some ')') :
    Reads (source (nestedCeilings levels) ++ rest) (nestedCeilings levels) rest := by
  induction levels generalizing rest with
  | zero =>
    refine .cons (.number rfl (fun _ member => absurd member List.not_mem_nil) fun d next => ?_) (.nil rest)
    rcases ends with rfl | closes
    · cases next
    · cases closes.symm.trans next
      rfl
  | succ levels ih =>
    have list := (ih (')' :: rest) (.inr rfl)).append (.cons (Token.closing_standsBefore _) (.nil rest))
    rw [nestedCeilings, source_cons, source_cons, source_append, List.append_assoc, List.append_assoc,
      List.append_assoc]
    exact .cons (Token.word_standsBefore rfl (by decide) rfl) (.cons (Token.opening_standsBefore _) list)

private theorem noComment_nestedCeilings (levels : Nat) :
    (nestedCeilings levels).all (fun token => !token.isComment) = true := by
  induction levels with
  | zero => rfl
  | succ levels ih =>
    rw [nestedCeilings, List.all_cons, List.all_cons, List.all_append, ih]
    rfl

private theorem visible_nestedCeilings (levels : Nat) :
    (source (nestedCeilings levels)).all (fun c => !isBlank c) = true := by
  induction levels with
  | zero => rfl
  | succ levels ih =>
    rw [nestedCeilings, source_cons, source_cons, source_append, List.all_append, List.all_append,
      List.all_append, ih]
    rfl

private theorem argumentTokens_nestedCeilings (levels : Nat) :
    argumentTokens (nestedCeilings levels) = nestedCeilings levels := by
  have reads := reads_nestedCeilings levels [] (.inl rfl)
  rw [List.append_nil] at reads
  have noComment := List.all_eq_true.1 (noComment_nestedCeilings levels)
  have visible := List.all_eq_true.1 (visible_nestedCeilings levels)
  simp only [Bool.not_eq_true'] at noComment visible
  exact (reads.argument_eq_self (fun token last => noComment token (List.mem_of_getLast? last))
    (trim_of_visible visible)).2

private theorem hasTree_nestedCeilings {levels depth : Nat} (shallow : levels < depth) :
    HasTree sqlite.catalog depth (nestedCeilings levels) (ceilingsSql levels) := by
  obtain ⟨depth, rfl⟩ := Nat.exists_eq_succ_of_ne_zero (Nat.ne_of_gt (Nat.zero_lt_of_lt shallow))
  induction levels generalizing depth with
  | zero =>
    refine .copy nofun nofun ?_ .nil
    rintro ⟨_, same, _⟩
    cases same
  | succ levels ih =>
    obtain ⟨depth, rfl⟩ := Nat.exists_eq_succ_of_ne_zero (n := depth) (by omega)
    have delimited : Delimited (nestedCeilings levels) :=
      ⟨_, _, reads_nestedCeilings levels [')'] (.inr rfl), .inr rfl⟩
    have visible : IsVisible (nestedCeilings levels) := by
      cases levels <;> exact ⟨_, List.mem_cons_self, rfl⟩
    have argument := reads_argumentText delimited
    rw [argumentTokens_nestedCeilings] at argument
    have known : sqlite.catalog.containsName (String.ofList ['A', 'F', 'C', 'e', 'i', 'l', 'i', 'n', 'g']) = true :=
      Catalog.containsName_of_resolve resolve_ceiling
    have list : IsList [nestedCeilings levels] := ⟨nofun, by simp [isPiece_nestedCeilings]⟩
    have texts : HoldsTexts [nestedCeilings levels] [argumentText (nestedCeilings levels)] :=
      .each (by simp [visible])
    have nothing : HasTree sqlite.catalog (depth + 2) [] [] := .nil
    have call := nothing.call known list (by simp [delimited]) texts
      (.cons ⟨_, argument, ih depth (by omega)⟩ .nil) resolve_ceiling
    rw [intercalate_cons] at call
    rw [nestedCeilings, ceilingsSql]
    simpa using call

/-- Nested ceilings are translated to a text that grows by a factor of three with each of them, while the query grows
by eleven bytes. -/
theorem byteLength_nestedCeilings (placeholders : Registry) (now : DateTime) {levels maxDepth : Nat}
    (shallow : levels ≤ maxDepth) :
    byteLength (source (nestedCeilings levels)) = 11 * levels + 1 ∧
      ∃ sql, Query.translate sqlite.catalog placeholders maxDepth now (String.ofList (source (nestedCeilings levels))) =
          (.ok sql, placeholders) ∧ byteLength sql.toList + 22 = 23 * 3 ^ levels := by
  refine ⟨?_, String.ofList (ceilingsSql levels), ?_, ?_⟩
  · induction levels with
    | zero => rfl
    | succ levels ih =>
      have name : byteLength (Token.text (.word ['A', 'F', 'C', 'e', 'i', 'l', 'i', 'n', 'g'])) = 9 := rfl
      have opening : byteLength Token.opening.text = 1 := rfl
      have closing : byteLength (source [.closing]) = 1 := rfl
      have within := ih (by omega)
      rw [nestedCeilings, source_cons, source_cons, source_append, byteLength_append, byteLength_append,
        byteLength_append, name, opening, closing]
      omega
  · have reads := reads_nestedCeilings levels [] (.inl rfl)
    rw [List.append_nil] at reads
    have expands : expandQuery sqlite.catalog maxDepth (source (nestedCeilings levels)) = .ok (ceilingsSql levels) :=
      expandFragment_eq_ok_iff.2 ⟨_, reads, hasTree_nestedCeilings (Nat.lt_succ_of_le shallow)⟩
    rw [← String.toList_ofList (l := source (nestedCeilings levels))] at expands
    rw [Query.translate_of_ok expands,
      Registry.substituteText_of_not_mem (delimiter_not_mem_ceilingsSql levels)]
  · rw [String.toList_ofList]
    exact byteLength_ceilingsSql levels

/-- Five ceilings around a number are written in more than a hundred times the bytes of the query. -/
theorem five_ceilings_exceed_linear : ∃ sql after,
    delimiter ∉ "AFCeiling(AFCeiling(AFCeiling(AFCeiling(AFCeiling(1)))))".toList ∧
      Query.translate sqlite.catalog sqlite.placeholders defaultMaxDepth
        ⟨⟨2000, 1, 1, by decide⟩, ⟨0, 0, 0, 0, by decide⟩⟩
        "AFCeiling(AFCeiling(AFCeiling(AFCeiling(AFCeiling(1)))))" = (.ok sql, after) ∧
      64 * byteLength "AFCeiling(AFCeiling(AFCeiling(AFCeiling(AFCeiling(1)))))".toList < byteLength sql.toList := by
  obtain ⟨query, sql, translates, length⟩ := byteLength_nestedCeilings sqlite.placeholders
    ⟨⟨2000, 1, 1, by decide⟩, ⟨0, 0, 0, 0, by decide⟩⟩ (show 5 ≤ defaultMaxDepth by decide)
  have same : String.ofList (source (nestedCeilings 5)) =
      "AFCeiling(AFCeiling(AFCeiling(AFCeiling(AFCeiling(1)))))" := rfl
  rw [← String.toList_ofList (l := source (nestedCeilings 5))] at query
  rw [same] at query translates
  refine ⟨sql, _, by decide, translates, ?_⟩
  rw [query]
  omega

/-! ## The bound -/

/-- What an engine makes of a query without placeholders takes at most five times the bytes of the query for each
copy that is made of one stretch of it. -/
theorem byteLength_translate_le (dialect : Dialect) (placeholders : Registry) (maxDepth : Nat) (now : DateTime)
    {query sql : String} {after : Registry} (plain : delimiter ∉ query.toList)
    (translates : Query.translate dialect.catalog placeholders maxDepth now query = (.ok sql, after)) :
    ∃ tokens parts, Reads query.toList tokens [] ∧ Derives dialect.catalog tokens parts ∧
      evaluateParts dialect.catalog parts = sql.toList ∧
      byteLength sql.toList ≤ 5 * copiesOf dialect.catalog parts * byteLength query.toList ∧
      copiesOf dialect.catalog parts ≤ dialect.mostMentions ^ nestingOf parts ∧ nestingOf parts ≤ maxDepth := by
  obtain ⟨text, expands, result⟩ := Query.translate_ok_iff.1 translates
  obtain ⟨tokens, reads, parts, derives, resolves, shallow, rfl⟩ := expandFragment_eq_ok_iff.1 expands
  have some : 1 ≤ dialect.mostMentions := by cases dialect <;> decide
  have bytes := weight_evaluateParts_le (by decide) dialect.addsAtMost_bytes derives resolves reads
  have delimiters := weight_evaluateParts_le (Nat.le_refl 1) dialect.addsAtMost_delimiters derives resolves reads
  rw [reads.source_eq] at bytes delimiters
  rw [weight_weighDelimiter_eq_zero_iff.2 plain, Nat.mul_zero, Nat.le_zero,
    weight_weighDelimiter_eq_zero_iff] at delimiters
  rw [weight_utf8Size, weight_utf8Size] at bytes
  rw [Registry.substituteText_of_not_mem delimiters] at result
  obtain ⟨same, _⟩ := Prod.mk.inj result
  refine ⟨tokens, parts, reads, derives, same, ?_, ?_, Nat.le_of_lt_succ shallow⟩
  · rwa [← same]
  · exact copiesOf_le_pow some (fun _ _ _ found => mentions_le found) parts

/-- One stretch of the query is written nine times. -/
theorem byteLength_translate_le_of_ceilings : ∃ sql after,
    delimiter ∉ "AFCeiling(AFCeiling(1))".toList ∧
      Query.translate sqlite.catalog sqlite.placeholders 2 ⟨⟨2000, 1, 1, by decide⟩, ⟨0, 0, 0, 0, by decide⟩⟩
        "AFCeiling(AFCeiling(1))" = (.ok sql, after) ∧
      ∃ tokens parts, Reads "AFCeiling(AFCeiling(1))".toList tokens [] ∧ Derives sqlite.catalog tokens parts ∧
        evaluateParts sqlite.catalog parts = sql.toList ∧
        byteLength sql.toList ≤
          5 * copiesOf sqlite.catalog parts * byteLength "AFCeiling(AFCeiling(1))".toList ∧
        copiesOf sqlite.catalog parts ≤ sqlite.mostMentions ^ nestingOf parts ∧ nestingOf parts ≤ 2 := by
  obtain ⟨_, sql, translates, _⟩ := byteLength_nestedCeilings sqlite.placeholders
    ⟨⟨2000, 1, 1, by decide⟩, ⟨0, 0, 0, 0, by decide⟩⟩ (Nat.le_refl 2)
  have same : String.ofList (source (nestedCeilings 2)) = "AFCeiling(AFCeiling(1))" := rfl
  rw [same] at translates
  have plain : delimiter ∉ "AFCeiling(AFCeiling(1))".toList := by decide
  exact ⟨sql, _, plain, translates, byteLength_translate_le .sqlite _ 2 _ plain translates⟩

end Dialect

end PortableSql
