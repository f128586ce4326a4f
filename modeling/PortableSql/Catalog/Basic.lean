import PortableSql.Catalog.Expansion
import PortableSql.Table

/-!
The catalog of portable functions. A function is found by its name, whose ASCII letter case does not
count, and the number of arguments; the overloads of one name are independent of each other.
Registering under a name and an arity that are taken replaces the entry.
-/
namespace PortableSql

open Text

/-- A portable function: how its calls are written in an engine's own SQL. -/
structure PortableFunction where
  /-- The name as it was registered. -/
  name : String
  arity : Nat
  template : String
  description : Option String
  deriving DecidableEq, Repr

namespace PortableFunction

/-- The engine's SQL for a call with these arguments. -/
def expandText (f : PortableFunction) (args : List (List Char)) : List Char :=
  Catalog.expandText args f.template.toList

/-- The engine's SQL for a call with these arguments. -/
def expand (f : PortableFunction) (args : List String) : String :=
  String.ofList (f.expandText (args.map String.toList))

end PortableFunction

/-- What a function is found by: its name in small letters and its arity. -/
structure Signature where
  name : String
  arity : Nat
  deriving DecidableEq, Repr

namespace Signature

/-- Signatures are ordered by name, then by arity. -/
instance : Ord Signature :=
  ⟨compareLex (compareOn Signature.name) (compareOn Signature.arity)⟩

instance : Std.LawfulEqOrd Signature where
  compare_self := by
    intro s
    show (compare s.name s.name).then (compare s.arity s.arity) = .eq
    rw [Std.ReflOrd.compare_self, Std.ReflOrd.compare_self]
    rfl
  eq_of_compare := by
    intro s t same
    have parts : (compare s.name t.name).then (compare s.arity t.arity) = .eq := same
    rw [Ordering.then_eq_eq] at parts
    cases s
    cases t
    simp_all

/-- The signature that calls of `name` with `arity` arguments look for. -/
def of (name : String) (arity : Nat) : Signature :=
  ⟨foldCase name, arity⟩

end Signature

/-- Portable functions by signature. -/
structure Catalog where
  table : Table Signature PortableFunction

namespace Catalog

def empty : Catalog := ⟨Table.empty⟩

/-- The function that a call of `name` with `arity` arguments means. -/
def resolve (catalog : Catalog) (name : String) (arity : Nat) : Option PortableFunction :=
  catalog.table.get? (Signature.of name arity)

/-- Stores a function under its own name and arity. -/
def insert (catalog : Catalog) (f : PortableFunction) : Catalog :=
  ⟨catalog.table.insert (Signature.of f.name f.arity) f⟩

/-- Stores a function and gives the one that it replaces. -/
def register (catalog : Catalog) (f : PortableFunction) : Option PortableFunction × Catalog :=
  (catalog.resolve f.name f.arity, catalog.insert f)

/-- Stores functions one after the other. -/
def registerAll (catalog : Catalog) (functions : List PortableFunction) : Catalog :=
  functions.foldl insert catalog

/-- Whether some function has this name, at any arity. -/
def containsName (catalog : Catalog) (name : String) : Bool :=
  catalog.table.keys.any fun signature => signature.name = foldCase name

/-- The arities at which a name is registered, ascending. -/
def arities (catalog : Catalog) (name : String) : List Nat :=
  (catalog.table.keys.filter fun signature => signature.name = foldCase name).map Signature.arity

/-- All functions, by name and then by arity. -/
def functions (catalog : Catalog) : List PortableFunction :=
  catalog.table.values

def size (catalog : Catalog) : Nat :=
  catalog.table.size

def isEmpty (catalog : Catalog) : Bool :=
  catalog.size == 0

end Catalog

end PortableSql
