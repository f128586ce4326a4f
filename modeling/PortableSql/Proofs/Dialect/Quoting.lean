import PortableSql.Dialect.Basic
import PortableSql.Proofs.Query.Lexis

/-!
# Names between quotes

A name is quoted by doubling each closing quote in it, so behind the opening quote closing quotes stand in pairs
up to the last one. Whatever follows, a scan that skips pairs ends there, unless what follows begins with one
more closing quote (`Dialect.quoted_name_ends`). So no name gets out of its quotes, and no two names are quoted
in the same way.
-/
namespace PortableSql.Dialect

open Query

namespace Profile

/-- Splits a text behind the quoted name that it begins with. A doubled closing quote does not close, and there
is no other escape. -/
def splitName? (profile : Profile) : List Char → Option (List Char × List Char)
  | [] => none
  | c :: text =>
    if c = profile.openQuote then
      (splitQuoted? profile.closeQuote text).map fun (body, behind) => (c :: body, behind)
    else none

/-- Undoes the doubling of a quote. -/
def unescapeName (quote : Char) : List Char → List Char
  | [] => []
  | [c] => [c]
  | c :: d :: rest =>
    if c = quote ∧ d = quote then quote :: unescapeName quote rest
    else c :: unescapeName quote (d :: rest)

/-- The name that stands between its quotes. -/
def unquoteName (profile : Profile) (quoted : String) : String :=
  String.ofList (unescapeName profile.closeQuote quoted.toList.tail.dropLast)

theorem escapeName_cons (quote c : Char) (name : List Char) :
    escapeName quote (c :: name) =
      if c = quote then c :: c :: escapeName quote name else c :: escapeName quote name := by
  rw [escapeName, List.flatMap_cons]
  split <;> rfl

/-- Between quotes of its own, an escaped name is the body of a quoted span. -/
theorem quotedBody_escapeName (quote : Char) (name : List Char) :
    QuotedBody quote (escapeName quote name) := by
  induction name with
  | nil => exact .nil
  | cons c name ih =>
    rw [escapeName_cons]
    split
    · rename_i same
      subst same
      exact .doubled ih
    · rename_i different
      exact .other different ih

theorem unescapeName_cons_of_ne {quote c : Char} (different : c ≠ quote) (text : List Char) :
    unescapeName quote (c :: text) = c :: unescapeName quote text := by
  cases text with
  | nil => rfl
  | cons d rest => simp [unescapeName, different]

theorem unescapeName_escapeName (quote : Char) (name : List Char) :
    unescapeName quote (escapeName quote name) = name := by
  induction name with
  | nil => rfl
  | cons c name ih =>
    rw [escapeName_cons]
    split
    · rename_i same
      simp [unescapeName, same, ih]
    · rename_i different
      rw [unescapeName_cons_of_ne different, ih]

end Profile

section
variable (dialect : Dialect) {name following other behind : String}

/-- The text of a quoted name begins and ends in a quote. -/
theorem quoteIdentifier_toList (name : String) :
    (dialect.quoteIdentifier name).toList =
      dialect.profile.openQuote ::
        (Profile.escapeName dialect.profile.closeQuote name.toList ++ [dialect.profile.closeQuote]) :=
  String.toList_ofList

theorem unquoteName_quoteIdentifier (name : String) :
    dialect.profile.unquoteName (dialect.quoteIdentifier name) = name := by
  rw [Profile.unquoteName, quoteIdentifier_toList, List.tail_cons, List.dropLast_concat,
    Profile.unescapeName_escapeName, String.ofList_toList]

/-- The scan of a quoted name is the scan of what stands behind its opening quote. -/
theorem splitName?_quoteIdentifier (name following : String) :
    dialect.profile.splitName? (dialect.quoteIdentifier name ++ following).toList =
      (splitQuoted? dialect.profile.closeQuote
        (Profile.escapeName dialect.profile.closeQuote name.toList ++
          dialect.profile.closeQuote :: following.toList)).map
        fun (body, behind) => (dialect.profile.openQuote :: body, behind) := by
  rw [String.toList_append, quoteIdentifier_toList, List.cons_append, List.append_assoc]
  simp [Profile.splitName?]

theorem splitName?_eq_some_iff (name following : String) :
    dialect.profile.splitName? (dialect.quoteIdentifier name ++ following).toList =
        some ((dialect.quoteIdentifier name).toList, following.toList) ↔
      following.toList.head? ≠ some dialect.profile.closeQuote := by
  have inside := Profile.quotedBody_escapeName dialect.profile.closeQuote name.toList
  rw [splitName?_quoteIdentifier, quoteIdentifier_toList]
  constructor
  · intro found
    obtain ⟨⟨body, rest⟩, split, same⟩ := Option.map_eq_some_iff.1 found
    obtain ⟨_, -, -, closes⟩ := splitQuoted?_body split
    rw [Prod.mk.injEq] at same
    rw [← same.2]
    exact closes
  · intro closes
    rw [splitQuoted?_of_body inside closes]
    rfl

/-- Two quoted names are the same text before the same text only if they are the same name. -/
theorem quoteIdentifier_append_inj
    (closes : following.toList.head? ≠ some dialect.profile.closeQuote)
    (closesOther : behind.toList.head? ≠ some dialect.profile.closeQuote)
    (same : dialect.quoteIdentifier name ++ following = dialect.quoteIdentifier other ++ behind) :
    name = other ∧ following = behind := by
  have found := (splitName?_eq_some_iff dialect name following).2 closes
  have foundOther := (splitName?_eq_some_iff dialect other behind).2 closesOther
  rw [same, foundOther, Option.some.injEq, Prod.mk.injEq, String.toList_inj, String.toList_inj] at found
  obtain ⟨quoted, rest⟩ := found
  refine ⟨?_, rest.symm⟩
  rw [← unquoteName_quoteIdentifier dialect name, ← quoted, unquoteName_quoteIdentifier]

end

/-- A quoted name ends at its own closing quote, exactly if no further closing quote follows it directly; for
PostgreSQL and SQLite the scan is that of the quoted spans of a query. Undoing the doubling gives the name, so
that a text begins with one quoted name at most, and different names are quoted differently. -/
theorem quoted_name_ends (dialect : Dialect) (name following : String) :
    let quoted := dialect.quoteIdentifier name
    let text := (quoted ++ following).toList
    (dialect.profile.splitName? text = some (quoted.toList, following.toList) ↔
      following.toList.head? ≠ some dialect.profile.closeQuote) ∧
    (dialect = .postgres ∨ dialect = .sqlite →
      nextToken? dialect.profile.openQuote text.tail =
        (dialect.profile.splitName? text).map fun (span, rest) => (.quoted span, rest)) ∧
    dialect.profile.unquoteName quoted = name ∧
    (following.toList.head? ≠ some dialect.profile.closeQuote →
      ∀ other behind : String, behind.toList.head? ≠ some dialect.profile.closeQuote →
        quoted ++ following = dialect.quoteIdentifier other ++ behind →
          name = other ∧ following = behind) ∧
    Function.Injective dialect.quoteIdentifier := by
  intro quoted text
  refine ⟨splitName?_eq_some_iff dialect name following, fun spans => ?_,
    unquoteName_quoteIdentifier dialect name, fun closes other behind closesOther same => ?_, ?_⟩
  · have opens : isQuote dialect.profile.openQuote = true ∧
        dialect.profile.openQuote = dialect.profile.closeQuote := by
      rcases spans with rfl | rfl <;> decide
    have written : text.tail = Profile.escapeName dialect.profile.closeQuote name.toList ++
        dialect.profile.closeQuote :: following.toList := by
      simp [text, quoted, quoteIdentifier_toList]
    rw [splitName?_quoteIdentifier, written, nextToken?, if_pos opens.1, ← opens.2, Option.map_map]
    rfl
  · exact quoteIdentifier_append_inj dialect closes closesOther same
  · intro first second same
    have ends : ("" : String).toList.head? ≠ some dialect.profile.closeQuote := by simp
    exact (quoteIdentifier_append_inj dialect ends ends (by rw [same])).1

/-- A name of closing brackets, and one that is the end of a statement. -/
theorem quoted_name_ends_of_brackets :
    sqlServer.quoteIdentifier "]]" = "[]]]]]" ∧
      (" FROM t".toList.head? ≠ some ']' ∧
        sqlServer.profile.splitName? "[]]]]] FROM t".toList = some ("[]]]]]".toList, " FROM t".toList)) ∧
      sqlServer.profile.splitName? "[]]]]]]".toList ≠ some ("[]]]]]".toList, [']']) ∧
      nextToken? '"' "\"\"; DROP TABLE t; --\", y".toList =
        some (.quoted "\"\"\"; DROP TABLE t; --\"".toList, ", y".toList) ∧
      postgres.profile.unquoteName "\"\"\"; DROP TABLE t; --\"" = "\"; DROP TABLE t; --" := by
  have brackets : sqlServer.quoteIdentifier "]]" = "[]]]]]" := rfl
  have statement : postgres.quoteIdentifier "\"; DROP TABLE t; --" = "\"\"\"; DROP TABLE t; --\"" := rfl
  have visible : " FROM t".toList.head? ≠ some ']' := by decide
  have before := (quoted_name_ends sqlServer "]]" " FROM t").1.2 visible
  have doubled := (quoted_name_ends sqlServer "]]" "]").1
  obtain ⟨exact, own, undone, -⟩ := quoted_name_ends postgres "\"; DROP TABLE t; --" ", y"
  have token := own (.inl rfl)
  rw [exact.2 (by decide)] at token
  rw [statement] at undone
  exact ⟨brackets, ⟨visible, before⟩, fun found => doubled.1 found rfl, token, undone⟩

end PortableSql.Dialect
