import PortableSql.Dialect.Basic
import PortableSql.Proofs.Table
import PortableSql.Proofs.Text.LetterCase

/-!
# Registered functions

What is found in a catalog after functions have been registered one after the other: the last one with
the name and the arity that is asked for (`resolve_registerAll`). An engine's own functions stand behind
the shared ones (`Dialect.resolve_catalog`).
-/
namespace PortableSql

namespace Catalog

theorem resolve_insert (catalog : Catalog) (f : PortableFunction) (name : String) (arity : Nat) :
    (catalog.insert f).resolve name arity =
      if Signature.of f.name f.arity = Signature.of name arity then some f
      else catalog.resolve name arity := by
  unfold resolve insert
  split
  · rename_i same
    rw [same]
    exact Table.get?_insert_self ..
  · rename_i different
    exact Table.get?_insert_of_ne _ (Ne.symm different) f

/-- The function of a name and an arity that is registered last. -/
def lastNamed (functions : List PortableFunction) (name : String) (arity : Nat) :
    Option PortableFunction :=
  functions.findRev? fun f => Signature.of f.name f.arity = Signature.of name arity

theorem resolve_registerAll (catalog : Catalog) (functions : List PortableFunction) (name : String)
    (arity : Nat) :
    (catalog.registerAll functions).resolve name arity =
      (lastNamed functions name arity).or (catalog.resolve name arity) := by
  induction functions generalizing catalog with
  | nil => rfl
  | cons f functions ih =>
    show ((catalog.insert f).registerAll functions).resolve name arity = _
    rw [ih, resolve_insert, lastNamed, lastNamed, List.findRev?]
    cases functions.findRev? fun f => Signature.of f.name f.arity = Signature.of name arity with
    | some g => rfl
    | none => by_cases same : Signature.of f.name f.arity = Signature.of name arity <;> simp [same]

theorem lastNamed_eq_some {functions : List PortableFunction} {name : String} {arity : Nat}
    {f : PortableFunction} (found : lastNamed functions name arity = some f) :
    f ∈ functions ∧ Signature.of f.name f.arity = Signature.of name arity := by
  rw [lastNamed, List.findRev?_eq_find?_reverse] at found
  have same := List.find?_some found
  exact ⟨List.mem_reverse.1 (List.mem_of_find?_eq_some found), of_decide_eq_true same⟩

/-- A name with a function is a name of the catalog. -/
theorem containsName_of_resolve {catalog : Catalog} {name : String} {arity : Nat}
    {f : PortableFunction} (found : catalog.resolve name arity = some f) :
    catalog.containsName name = true := by
  rw [containsName, List.any_eq_true]
  exact ⟨Signature.of name arity, Table.mem_keys_iff.2 ⟨f, found⟩, decide_eq_true rfl⟩

/-- A name of the catalog has a function at some arity. -/
theorem exists_resolve_of_containsName {catalog : Catalog} {name : String}
    (known : catalog.containsName name = true) : ∃ arity f, catalog.resolve name arity = some f := by
  obtain ⟨signature, member, same⟩ := List.any_eq_true.1 known
  obtain ⟨f, found⟩ := Table.mem_keys_iff.1 member
  refine ⟨signature.arity, f, ?_⟩
  rw [resolve, Signature.of, ← of_decide_eq_true same]
  exact found

/-- The names of a catalog are those under which a call can find a function. -/
theorem containsName_iff {catalog : Catalog} {name : String} :
    catalog.containsName name = true ↔ ∃ arity f, catalog.resolve name arity = some f :=
  ⟨exists_resolve_of_containsName, fun ⟨_, _, found⟩ => containsName_of_resolve found⟩

theorem containsName_of_sameUpToCase (catalog : Catalog) {name name' : String}
    (same : Text.SameUpToCase name name') : catalog.containsName name = catalog.containsName name' := by
  rw [containsName, containsName, Text.foldCase_eq_iff.2 same]

theorem resolve_of_sameUpToCase (catalog : Catalog) {name name' : String}
    (same : Text.SameUpToCase name name') (arity : Nat) :
    catalog.resolve name arity = catalog.resolve name' arity := by
  rw [resolve, resolve, Signature.of, Signature.of, Text.foldCase_eq_iff.2 same]

theorem containsName_insert_iff {catalog : Catalog} {f : PortableFunction} {name : String} :
    (catalog.insert f).containsName name = true ↔
      Text.foldCase f.name = Text.foldCase name ∨ catalog.containsName name = true := by
  rw [containsName_iff, containsName_iff]
  constructor
  · rintro ⟨arity, g, found⟩
    rw [resolve_insert] at found
    split at found
    · rename_i same
      exact .inl (congrArg Signature.name same)
    · exact .inr ⟨arity, g, found⟩
  · rintro (same | ⟨arity, g, found⟩)
    · refine ⟨f.arity, f, ?_⟩
      rw [resolve_insert, Signature.of, Signature.of, same, if_pos rfl]
    · by_cases taken : Signature.of f.name f.arity = Signature.of name arity
      · exact ⟨arity, f, by rw [resolve_insert, if_pos taken]⟩
      · exact ⟨arity, g, by rw [resolve_insert, if_neg taken, found]⟩

end Catalog

/-- The function of an engine, or else the shared one. -/
theorem Dialect.resolve_catalog (dialect : Dialect) (name : String) (arity : Nat) :
    dialect.catalog.resolve name arity =
      (Catalog.lastNamed dialect.profile.functions name arity).or
        (Catalog.lastNamed sharedFunctions name arity) := by
  rw [catalog, Catalog.resolve_registerAll, Catalog.resolve_registerAll]
  congr 1
  exact Option.or_none

/-- A function that is found has the name and the arity that are asked for. It is the engine's own, or a
shared one that the engine does not replace. -/
theorem Dialect.resolve_catalog_eq_some {dialect : Dialect} {name : String} {arity : Nat}
    {f : PortableFunction} (found : dialect.catalog.resolve name arity = some f) :
    Signature.of f.name f.arity = Signature.of name arity ∧
      (f ∈ dialect.profile.functions ∨
        f ∈ sharedFunctions ∧ Catalog.lastNamed dialect.profile.functions f.name f.arity = none) := by
  rw [resolve_catalog, Option.or_eq_some_iff] at found
  rcases found with own | ⟨missing, shared⟩
  · obtain ⟨member, same⟩ := Catalog.lastNamed_eq_some own
    exact ⟨same, .inl member⟩
  · obtain ⟨member, same⟩ := Catalog.lastNamed_eq_some shared
    refine ⟨same, .inr ⟨member, ?_⟩⟩
    rw [Catalog.lastNamed, same]
    exact missing

end PortableSql
