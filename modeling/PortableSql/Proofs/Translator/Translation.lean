import PortableSql.Proofs.Placeholder.Substitution
import PortableSql.Proofs.Query.CallFree
import PortableSql.Translator.Basic

/-!
# Translation where no placeholder stands

What a translator makes of a query whose expansion has no registered placeholder in it, and of a call
whose arguments hold no calls. The translator stays as it is. Any query that is translated has a call tree
(`exists_parts`).
-/
namespace PortableSql.Translator

open Placeholder Query

variable {translator : Translator}

/-- A query is translated to its expansion with the values of the placeholders put in. The values that are read
are all that changes. -/
theorem translate_ok_iff {query sql : String} {after : Translator} :
    translator.translate query = (.ok sql, after) ↔
      ∃ text, expandQuery translator.functions translator.options.maxDepth query.toList = .ok text ∧
        (translator.placeholders.substituteText translator.now text).1 = sql.toList ∧
        after = { translator with
          placeholders := (translator.placeholders.substituteText translator.now text).2 } := by
  cases expands : expandQuery translator.functions translator.options.maxDepth query.toList with
  | ok text =>
    simp [translate, Query.translate_of_ok expands, Prod.ext_iff, String.ext_iff, eq_comm]
  | error e => simp [translate, Query.translate_of_error expands]

/-- A translated query has a tree, and the result is the value of the tree with the values of the
placeholders put in. -/
theorem exists_parts {query sql : String} {after : Translator}
    (translates : translator.translate query = (.ok sql, after)) :
    ∃ tokens parts, Reads query.toList tokens [] ∧ Derives translator.functions tokens parts ∧
      PartsResolve translator.functions parts ∧
      (translator.placeholders.substituteText translator.now
        (evaluateParts translator.functions parts)).1 = sql.toList := by
  obtain ⟨text, expands, filled, _⟩ := translate_ok_iff.1 translates
  obtain ⟨tokens, reads, parts, derives, resolves, _, rfl⟩ := expandFragment_eq_ok_iff.1 expands
  exact ⟨tokens, parts, reads, derives, resolves, filled⟩

/-- A query is translated to its expansion where no placeholder stands in that. -/
theorem translate_of_expandQuery {query : String} {text : List Char} {tokens : List Token}
    (expands : expandQuery translator.functions translator.options.maxDepth query.toList = .ok text)
    (reads : Reads text tokens []) (settled : PlaceholderFree translator.placeholders tokens) :
    translator.translate query = (.ok (String.ofList text), translator) := by
  refine translate_ok_iff.2 ⟨text, expands, ?_⟩
  rw [Registry.substituteText_of_free reads settled]
  exact ⟨String.toList_ofList.symm, rfl⟩

/-- Text without calls and placeholders is translated to itself. -/
theorem translate_of_plain {query : String} {tokens : List Token}
    (reads : Reads query.toList tokens []) (balanced : Balanced tokens)
    (free : CallFree translator.functions tokens)
    (settled : PlaceholderFree translator.placeholders tokens) :
    translator.translate query = (.ok query, translator) := by
  have expands : expandQuery translator.functions translator.options.maxDepth query.toList =
      .ok query.toList := expandFragment_of_plain reads balanced free
  rw [translate_of_expandQuery expands reads settled, String.ofList_toList]

/-- A call whose arguments hold no calls is translated to the template with the arguments in it. -/
theorem translate_of_plainCall {query : String} {letters : List Char} {pieces : List (List Token)}
    {f : PortableFunction} {tokens : List Token} (deep : 0 < translator.options.maxDepth)
    (readsQuery : Reads query.toList
      (.word letters :: .opening :: (List.intercalate [.comma] pieces ++ [.closing])) [])
    (known : translator.functions.containsName (String.ofList letters) = true)
    (isList : IsList pieces) (visible : ∀ piece ∈ pieces, IsVisible piece)
    (free : ∀ piece ∈ pieces, CallFree translator.functions (argumentTokens piece))
    (overload : translator.functions.resolve (String.ofList letters) pieces.length = some f)
    (reads : Reads (f.expandText (pieces.map argumentText)) tokens [])
    (settled : PlaceholderFree translator.placeholders tokens) :
    translator.translate query =
      (.ok (String.ofList (f.expandText (pieces.map argumentText))), translator) := by
  obtain ⟨levels, depth⟩ := Nat.exists_eq_succ_of_ne_zero (Nat.ne_of_gt deep)
  refine translate_of_expandQuery ?_ reads settled
  rw [expandQuery, depth]
  exact expandFragment_of_plainCall readsQuery known isList visible free overload

end PortableSql.Translator
