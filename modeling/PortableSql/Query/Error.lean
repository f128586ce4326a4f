import PortableSql.Text.Letters

/-!
Why the calls of a query cannot be expanded, and where. An error points to a fragment of the query: its position
is the number of bytes before the fragment, and the message quotes the beginning of it.
-/
namespace PortableSql.Query

/-- A stretch of a query and the number of bytes that stand before it. -/
structure Fragment where
  offset : Nat
  text : List Char
  deriving DecidableEq, Repr

/-- What is malformed about a query. -/
inductive Fault
  | unterminatedLiteral (quote : Char)
  | unbalancedParenthesis
  | unclosedParenthesis
  | unclosedCall (name : String)
  | emptyArgument (name : String)
  deriving DecidableEq, Repr

inductive Error
  | malformed (fault : Fault) (position : Nat) (snippet : String)
  | unknownOverload (name : String) (arity : Nat) (position : Nat) (snippet : String)
  | depthExceeded (limit : Nat) (position : Nat) (snippet : String)
  deriving DecidableEq, Repr

/-- The number of characters that an error quotes at most. -/
def snippetLength : Nat := 32

namespace Fragment

/-- The beginning of a fragment, as errors quote it. -/
def snippet (fragment : Fragment) : String :=
  String.ofList (fragment.text.take snippetLength)

/-- The error that a fault makes of the fragment it is found at. -/
def malformed (fragment : Fragment) (fault : Fault) : Error :=
  .malformed fault fragment.offset fragment.snippet

end Fragment

namespace Fault

def message : Fault → String
  | .unterminatedLiteral quote => s!"unterminated {quote} literal"
  | .unbalancedParenthesis => "unbalanced ')'"
  | .unclosedParenthesis => "unclosed '('"
  | .unclosedCall name => s!"unclosed '(' in call to {name}"
  | .emptyArgument name => s!"empty argument in call to {name}"

end Fault

namespace Error

def message : Error → String
  | .malformed fault position snippet =>
    s!"Malformed function call at position {position}: {fault.message} near '{snippet}'"
  | .unknownOverload name arity position snippet =>
    s!"Unknown overload: {name}/{arity} at position {position} in '{snippet}'"
  | .depthExceeded limit position snippet =>
    s!"Rewrite depth exceeded: nesting deeper than {limit} at position {position} near '{snippet}'"

end Error

end PortableSql.Query
