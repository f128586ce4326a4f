import Mathlib.Data.Finset.Card
import Mathlib.Data.String.Basic
import PortableSql.Proofs.Catalog.Registration
import PortableSql.Proofs.Text.LetterCase

/-!
# What a catalog holds

A catalog that functions are registered in one after the other answers every question by the last function with
the name and the arity that are asked for, and lists each name and arity once and in order (`Represents`). The
names can be kept in a set of their own: registering keeps it in step with the entries (`InStep`), so the set
answers like they do. Main statement: `Catalog.represents_registrations`.
-/
namespace PortableSql

open Text

/-- What a function is stored under. -/
def PortableFunction.signature (f : PortableFunction) : Signature :=
  Signature.of f.name f.arity

/-- A function is meant by calls of a name, in any letter case, with so many arguments. -/
def PortableFunction.Answers (f : PortableFunction) (name : String) (arity : Nat) : Prop :=
  SameUpToCase f.name name ∧ f.arity = arity

/-- Functions are listed by their names in small letters, then by their arities. -/
def PortableFunction.Precedes (f g : PortableFunction) : Prop :=
  foldCase f.name < foldCase g.name ∨ foldCase f.name = foldCase g.name ∧ f.arity < g.arity

/-- A function is the last one of a list that is meant by calls of a name with so many arguments. -/
def IsLastAnswer (registered : List PortableFunction) (name : String) (arity : Nat)
    (f : PortableFunction) : Prop :=
  ∃ earlier later, registered = earlier ++ f :: later ∧ f.Answers name arity ∧
    ∀ g ∈ later, ¬ g.Answers name arity

theorem PortableFunction.answers_iff {f : PortableFunction} {name : String} {arity : Nat} :
    f.Answers name arity ↔ f.signature = Signature.of name arity := by
  simp only [Answers, signature, Signature.of, Signature.mk.injEq, foldCase_eq_iff]

namespace Signature

instance : Std.TransOrd Signature :=
  inferInstanceAs (Std.TransCmp (compareLex (compareOn Signature.name) (compareOn Signature.arity)))

theorem compare_eq_lt_iff {s t : Signature} :
    compare s t = .lt ↔ s.name < t.name ∨ s.name = t.name ∧ s.arity < t.arity := by
  have parts : compare s t = (compare s.name t.name).then (compare s.arity t.arity) := rfl
  rw [parts, Ordering.then_eq_lt, Nat.compare_eq_lt, Std.LawfulEqOrd.compare_eq_iff_eq]
  exact or_congr_left compare_lt_iff_lt

end Signature

namespace Catalog

/-- A catalog answers as functions say that were registered in this order. -/
structure Represents (catalog : Catalog) (registered : List PortableFunction) : Prop where
  named_iff_arities : ∀ name, catalog.containsName name = true ↔ catalog.arities name ≠ []
  named_iff_registered : ∀ name,
    catalog.containsName name = true ↔ ∃ f ∈ registered, SameUpToCase f.name name
  resolves : ∀ name arity f,
    catalog.resolve name arity = some f ↔ IsLastAnswer registered name arity f
  unresolved : ∀ name arity,
    catalog.resolve name arity = none ↔ ∀ f ∈ registered, ¬ f.Answers name arity
  arities_ascending : ∀ name, (catalog.arities name).Pairwise (· < ·)
  mem_arities : ∀ name arity, arity ∈ catalog.arities name ↔ ∃ f ∈ registered, f.Answers name arity
  listed_in_order : catalog.functions.Pairwise PortableFunction.Precedes
  listed_signatures : ∀ signature, signature ∈ catalog.functions.map PortableFunction.signature ↔
    signature ∈ registered.map PortableFunction.signature
  listed : ∀ f, f ∈ catalog.functions ↔ catalog.resolve f.name f.arity = some f
  size : catalog.size = (registered.map PortableFunction.signature).toFinset.card

/-! ## What registering keeps -/

/-- The entries stand in the order of their keys, each under the signature of its own function. -/
structure IsOrdered (catalog : Catalog) : Prop where
  ascending : catalog.table.IsAscending
  own : ∀ entry ∈ catalog.table.entries, entry.1 = entry.2.signature

theorem isOrdered_empty : empty.IsOrdered where
  ascending := Table.isAscending_empty
  own := nofun

theorem IsOrdered.insert {catalog : Catalog} (ordered : catalog.IsOrdered) (f : PortableFunction) :
    (catalog.insert f).IsOrdered where
  ascending := ordered.ascending.insert _ _
  own := by
    intro entry member
    rcases Table.mem_of_mem_insertEntry member with rfl | before
    · rfl
    · exact ordered.own entry before

theorem IsOrdered.registerAll {catalog : Catalog} (ordered : catalog.IsOrdered)
    (registered : List PortableFunction) : (catalog.registerAll registered).IsOrdered := by
  induction registered generalizing catalog with
  | nil => exact ordered
  | cons f registered ih => exact ih (ordered.insert f)

theorem mem_keys_registerAll {catalog : Catalog} {registered : List PortableFunction}
    {signature : Signature} :
    signature ∈ (catalog.registerAll registered).table.keys ↔
      signature ∈ registered.map PortableFunction.signature ∨ signature ∈ catalog.table.keys := by
  induction registered generalizing catalog with
  | nil => simp [registerAll]
  | cons f registered ih =>
    have first : signature ∈ (catalog.insert f).table.keys ↔
        signature = f.signature ∨ signature ∈ catalog.table.keys := Table.mem_keys_insert
    show signature ∈ ((catalog.insert f).registerAll registered).table.keys ↔ _
    rw [ih, first, List.map_cons, List.mem_cons, or_assoc, or_left_comm]

/-! ## What an ordered catalog answers -/

section
variable {catalog : Catalog} {name : String} {arity : Nat} {f : PortableFunction}

theorem containsName_iff_arities : catalog.containsName name = true ↔ catalog.arities name ≠ [] := by
  simp [containsName, arities]

theorem mem_arities_iff : arity ∈ catalog.arities name ↔ Signature.of name arity ∈ catalog.table.keys := by
  rw [arities, List.mem_map]
  constructor
  · rintro ⟨signature, member, rfl⟩
    obtain ⟨present, same⟩ := List.mem_filter.1 member
    rw [Signature.of, ← of_decide_eq_true same]
    exact present
  · intro present
    exact ⟨_, List.mem_filter.2 ⟨present, decide_eq_true rfl⟩, rfl⟩

theorem IsOrdered.arities_ascending (ordered : catalog.IsOrdered) (name : String) :
    (catalog.arities name).Pairwise (· < ·) := by
  rw [arities, List.pairwise_map]
  refine (ordered.ascending.filter _).imp_of_mem ?_
  intro s t first second below
  have sameName : s.name = t.name := by
    rw [of_decide_eq_true (List.mem_filter.1 first).2, of_decide_eq_true (List.mem_filter.1 second).2]
  rcases Signature.compare_eq_lt_iff.1 below with smaller | ⟨-, fewer⟩
  · rw [sameName] at smaller
    exact absurd smaller (String.lt_irrefl _)
  · exact fewer

theorem IsOrdered.map_signature_functions (ordered : catalog.IsOrdered) :
    catalog.functions.map PortableFunction.signature = catalog.table.keys := by
  rw [functions, Table.values, Table.keys, List.map_map]
  exact List.map_congr_left fun entry member => (ordered.own entry member).symm

theorem IsOrdered.functions_in_order (ordered : catalog.IsOrdered) :
    catalog.functions.Pairwise PortableFunction.Precedes := by
  have ascending := ordered.ascending
  rw [Table.IsAscending, ← ordered.map_signature_functions, List.pairwise_map] at ascending
  exact ascending.imp Signature.compare_eq_lt_iff.1

theorem IsOrdered.mem_functions_iff (ordered : catalog.IsOrdered) :
    f ∈ catalog.functions ↔ catalog.resolve f.name f.arity = some f := by
  rw [resolve, ordered.ascending.get?_eq_some_iff, functions, Table.values, List.mem_map]
  constructor
  · rintro ⟨entry, member, rfl⟩
    have own := ordered.own entry member
    rw [← show entry.1 = Signature.of entry.2.name entry.2.arity from own]
    exact member
  · intro member
    exact ⟨_, member, rfl⟩

end

/-! ## What has been registered -/

theorem isLastAnswer_iff {registered : List PortableFunction} {name : String} {arity : Nat}
    {f : PortableFunction} :
    IsLastAnswer registered name arity f ↔ lastNamed registered name arity = some f := by
  rw [lastNamed, List.findRev?_eq_find?_reverse, List.find?_eq_some_iff_append]
  constructor
  · rintro ⟨earlier, later, rfl, answers, none⟩
    refine ⟨decide_eq_true (PortableFunction.answers_iff.1 answers), later.reverse, earlier.reverse, by simp,
      fun g member => ?_⟩
    have other := none g (List.mem_reverse.1 member)
    rw [PortableFunction.answers_iff, PortableFunction.signature] at other
    simpa using other
  · rintro ⟨answers, later, earlier, whole, none⟩
    refine ⟨earlier.reverse, later.reverse, ?_,
      PortableFunction.answers_iff.2 (of_decide_eq_true answers), fun g member => ?_⟩
    · rw [← List.reverse_reverse registered, whole]
      simp
    · rw [PortableFunction.answers_iff, PortableFunction.signature]
      simpa using none g (List.mem_reverse.1 member)

theorem lastNamed_eq_none_iff {registered : List PortableFunction} {name : String} {arity : Nat} :
    lastNamed registered name arity = none ↔ ∀ f ∈ registered, ¬ f.Answers name arity := by
  rw [lastNamed, List.findRev?_eq_find?_reverse, List.find?_eq_none]
  simp only [List.mem_reverse, decide_eq_true_eq, PortableFunction.answers_iff]
  rfl

theorem resolve_registrations (registered : List PortableFunction) (name : String) (arity : Nat) :
    (empty.registerAll registered).resolve name arity = lastNamed registered name arity := by
  rw [resolve_registerAll]
  exact Option.or_none

theorem mem_keys_registrations {registered : List PortableFunction} {signature : Signature} :
    signature ∈ (empty.registerAll registered).table.keys ↔
      signature ∈ registered.map PortableFunction.signature :=
  mem_keys_registerAll.trans (or_iff_left List.not_mem_nil)

theorem represents_registerAll (registered : List PortableFunction) :
    (empty.registerAll registered).Represents registered := by
  have ordered := isOrdered_empty.registerAll registered
  have arities : ∀ name arity, arity ∈ (empty.registerAll registered).arities name ↔
      ∃ f ∈ registered, f.Answers name arity := by
    intro name arity
    simp only [mem_arities_iff, mem_keys_registrations, List.mem_map, PortableFunction.answers_iff]
  refine ⟨fun name => containsName_iff_arities, fun name => ?_, fun name arity f => ?_,
    fun name arity => ?_, ordered.arities_ascending, arities, ordered.functions_in_order,
    fun signature => ?_, fun f => ordered.mem_functions_iff, ?_⟩
  · rw [containsName_iff_arities]
    constructor
    · intro some
      obtain ⟨arity, member⟩ := List.exists_mem_of_ne_nil _ some
      obtain ⟨f, among, same, -⟩ := (arities name arity).1 member
      exact ⟨f, among, same⟩
    · rintro ⟨f, among, same⟩
      exact List.ne_nil_of_mem ((arities name f.arity).2 ⟨f, among, same, rfl⟩)
  · rw [resolve_registrations, isLastAnswer_iff]
  · rw [resolve_registrations, lastNamed_eq_none_iff]
  · rw [ordered.map_signature_functions, mem_keys_registrations]
  · have same : (empty.registerAll registered).table.keys.toFinset =
        (registered.map PortableFunction.signature).toFinset := by
      ext signature
      rw [List.mem_toFinset, List.mem_toFinset, mem_keys_registrations]
    rw [← same, List.toFinset_card_of_nodup ordered.ascending.nodup, Table.keys, List.length_map]
    rfl

end Catalog

/-! ## Names in a set of their own -/

/-- A catalog that keeps the names of its functions in a set beside its entries. -/
structure IndexedCatalog where
  entries : Table Signature PortableFunction
  names : Finset String

namespace IndexedCatalog

def empty : IndexedCatalog := ⟨Table.empty, ∅⟩

/-- Stores a function and its name, and gives the function that it replaces. -/
def register (indexed : IndexedCatalog) (f : PortableFunction) :
    Option PortableFunction × IndexedCatalog :=
  (indexed.entries.get? f.signature,
    ⟨indexed.entries.insert f.signature f, insert (foldCase f.name) indexed.names⟩)

/-- Stores functions one after the other. -/
def registerAll (indexed : IndexedCatalog) (functions : List PortableFunction) : IndexedCatalog :=
  functions.foldl (fun indexed f => (indexed.register f).2) indexed

/-- Whether a name is in the set. -/
def containsName (indexed : IndexedCatalog) (name : String) : Bool :=
  decide (foldCase name ∈ indexed.names)

/-- The catalog without the set. -/
def catalog (indexed : IndexedCatalog) : Catalog := ⟨indexed.entries⟩

/-- The set holds the names of the entries. -/
def InStep (indexed : IndexedCatalog) : Prop :=
  ∀ name, name ∈ indexed.names ↔ ∃ signature ∈ indexed.entries.keys, signature.name = name

theorem inStep_empty : empty.InStep := by
  simp [InStep, empty, Table.keys, Table.empty]

theorem InStep.register {indexed : IndexedCatalog} (inStep : indexed.InStep) (f : PortableFunction) :
    (indexed.register f).2.InStep := by
  intro name
  have own : f.signature.name = name ↔ name = foldCase f.name := eq_comm
  simp only [IndexedCatalog.register, Finset.mem_insert, inStep name, Table.mem_keys_insert, or_and_right,
    exists_or, exists_eq_left, own]

theorem InStep.registerAll {indexed : IndexedCatalog} (inStep : indexed.InStep)
    (functions : List PortableFunction) : (indexed.registerAll functions).InStep := by
  induction functions generalizing indexed with
  | nil => exact inStep
  | cons f functions ih => exact ih (inStep.register f)

theorem catalog_registerAll (indexed : IndexedCatalog) (functions : List PortableFunction) :
    (indexed.registerAll functions).catalog = indexed.catalog.registerAll functions := by
  induction functions generalizing indexed with
  | nil => rfl
  | cons f functions ih => exact ih (indexed.register f).2

/-- A set that is in step answers like the entries do. -/
theorem InStep.containsName_eq {indexed : IndexedCatalog} (inStep : indexed.InStep) (name : String) :
    indexed.containsName name = indexed.catalog.containsName name := by
  rw [Bool.eq_iff_iff, containsName, decide_eq_true_eq, inStep, Catalog.containsName, List.any_eq_true]
  simp only [decide_eq_true_eq]
  rfl

end IndexedCatalog

namespace Catalog

/-- After any registrations a catalog answers by the last of them for each name and arity, and so does one that
looks its names up in a set. One more registration gives the function that was found under its own name and
arity before, and all others are found as before. -/
theorem represents_registrations (registered : List PortableFunction) :
    let catalog := empty.registerAll registered
    let indexed := IndexedCatalog.empty.registerAll registered
    catalog.Represents registered ∧
    (indexed.catalog = catalog ∧ ∀ name, indexed.containsName name = catalog.containsName name) ∧
    ∀ f : PortableFunction,
      (catalog.register f).1 = catalog.resolve f.name f.arity ∧
      (indexed.register f).1 = catalog.resolve f.name f.arity ∧
      (catalog.register f).2.Represents (registered ++ [f]) ∧
      ∀ name arity, ¬ f.Answers name arity →
        (catalog.register f).2.resolve name arity = catalog.resolve name arity := by
  intro catalog indexed
  have entries : indexed.catalog = catalog := IndexedCatalog.empty.catalog_registerAll registered
  have inStep : indexed.InStep := IndexedCatalog.inStep_empty.registerAll registered
  refine ⟨represents_registerAll registered, ⟨entries, fun name => ?_⟩, fun f => ⟨rfl, ?_, ?_, ?_⟩⟩
  · rw [inStep.containsName_eq, entries]
  · rw [← entries]
    rfl
  · have longer : (catalog.register f).2 = empty.registerAll (registered ++ [f]) := by
      rw [registerAll, List.foldl_append]
      rfl
    rw [longer]
    exact represents_registerAll _
  · intro name arity other
    rw [PortableFunction.answers_iff] at other
    exact (resolve_insert catalog f name arity).trans (if_neg other)

/-- Letter case counts for nothing in ASCII letters and for all in others. -/
theorem represents_registrations_of_umlauts :
    let first : PortableFunction := ⟨"AFÄ", 1, "a", none⟩
    let second : PortableFunction := ⟨"afÄ", 1, "b", some "again"⟩
    let other : PortableFunction := ⟨"AFä", 1, "c", none⟩
    let catalog := empty.registerAll [first, second]
    ¬ other.Answers "AfÄ" 1 ∧
      catalog.resolve "AfÄ" 1 = some second ∧
      (catalog.register other).1 = none ∧
      (catalog.register other).2.resolve "AfÄ" 1 = some second ∧
      (catalog.register other).2.size = 2 := by
  intro first second other catalog
  obtain ⟨represents, -, registers⟩ := represents_registrations [first, second]
  obtain ⟨previous, -, after, kept⟩ := registers other
  have different : ¬ other.Answers "AfÄ" 1 := by
    rw [PortableFunction.answers_iff]
    decide
  have last : catalog.resolve "AfÄ" 1 = some second :=
    (represents.resolves "AfÄ" 1 second).2
      ⟨[first], [], rfl, PortableFunction.answers_iff.2 (by decide), nofun⟩
  have unknown : catalog.resolve "AFä" 1 = none := by
    refine (represents.unresolved "AFä" 1).2 fun f member => ?_
    rw [PortableFunction.answers_iff]
    revert f
    decide
  exact ⟨different, last, previous.trans unknown, (kept _ _ different).trans last,
    after.size.trans (by decide)⟩

end Catalog

end PortableSql
