import PortableSql.Placeholder.Registry
import PortableSql.Query.Calls

/-!
Translating a query: its portable calls are expanded first, and then the placeholders in the result are
replaced by their values. A query whose calls cannot be expanded reads no placeholder.
-/
namespace PortableSql.Query

open Calendar

/-- Translates a query, and gives the placeholders after that; a query that fails has them as well. -/
def translate (catalog : Catalog) (placeholders : Placeholder.Registry) (maxDepth : Nat)
    (now : DateTime) (query : String) : Except Error String × Placeholder.Registry :=
  match expandQuery catalog maxDepth query.toList with
  | .ok text =>
    let (sql, placeholders) := placeholders.substituteText now text
    (.ok (String.ofList sql), placeholders)
  | .error e => (.error e, placeholders)

variable {catalog : Catalog} {placeholders : Placeholder.Registry} {maxDepth : Nat} {now : DateTime}
  {query : String}

theorem translate_of_ok {text : List Char} (expands : expandQuery catalog maxDepth query.toList = .ok text) :
    translate catalog placeholders maxDepth now query =
      (.ok (String.ofList (placeholders.substituteText now text).1),
        (placeholders.substituteText now text).2) := by
  simp only [translate, expands]

theorem translate_of_error {e : Error} (fails : expandQuery catalog maxDepth query.toList = .error e) :
    translate catalog placeholders maxDepth now query = (.error e, placeholders) := by
  simp only [translate, fails]

theorem translate_fst_eq_error_iff {e : Error} :
    (translate catalog placeholders maxDepth now query).1 = .error e ↔
      expandQuery catalog maxDepth query.toList = .error e := by
  cases expands : expandQuery catalog maxDepth query.toList with
  | ok text => simp [translate_of_ok expands]
  | error e' => simp [translate_of_error expands]

/-- A query that fails does so before any placeholder is read. -/
theorem translate_snd_of_error {e : Error}
    (fails : (translate catalog placeholders maxDepth now query).1 = .error e) :
    (translate catalog placeholders maxDepth now query).2 = placeholders := by
  rw [translate_of_error (translate_fst_eq_error_iff.1 fails)]

theorem translate_ok_iff {sql : String} {after : Placeholder.Registry} :
    translate catalog placeholders maxDepth now query = (.ok sql, after) ↔
      ∃ text, expandQuery catalog maxDepth query.toList = .ok text ∧
        placeholders.substituteText now text = (sql.toList, after) := by
  cases expands : expandQuery catalog maxDepth query.toList with
  | ok text =>
    simp only [translate_of_ok expands, Except.ok.injEq, exists_eq_left', Prod.ext_iff, String.ext_iff,
      String.toList_ofList]
  | error e => simp [translate_of_error expands]

end PortableSql.Query
