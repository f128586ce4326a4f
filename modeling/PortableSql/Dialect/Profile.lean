import PortableSql.Command.Registry
import PortableSql.Dialect.Vocabulary
import PortableSql.Placeholder.Builtin
import PortableSql.Value.Storage

/-!
What an engine brings along: how it quotes names, its own command templates and function spellings,
its literals, and how it stores identifiers.
-/
namespace PortableSql.Dialect

open Placeholder

/-- What one engine does in its own way. -/
structure Profile where
  openQuote : Char
  closeQuote : Char
  /-- Templates in place of the shared defaults. -/
  templates : List (CommandKind × String)
  /-- Functions in place of the shared ones. -/
  functions : List PortableFunction
  yes : String
  no : String
  literals : DateLiterals
  guidStorage : GuidStorage
  identity : Command.Identity

namespace Profile

/-- A name with each closing quote in it doubled. -/
def escapeName (quote : Char) (name : List Char) : List Char :=
  name.flatMap fun c => if c = quote then [c, c] else [c]

/-- A name between the quotes of the engine. -/
def quoteName (profile : Profile) (name : String) : String :=
  String.ofList
    (profile.openQuote :: (escapeName profile.closeQuote name.toList ++ [profile.closeQuote]))

end Profile

end PortableSql.Dialect
