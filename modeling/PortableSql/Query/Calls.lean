import PortableSql.Catalog.Basic
import PortableSql.Query.Arguments

/-!
Expanding the portable calls of a query. A call is a catalog name directly before a parenthesis; its
arguments are expanded first, one level deeper, and then put into the template of the function. All
other text is kept: quoted spans, comments, numbers and words are copied as they are, and the
parentheses that open no call have to balance.
-/
namespace PortableSql.Query

open Text

/-- The engine's SQL for a call, given what its arguments are expanded to. `call` is the query from
the name of the function on. -/
def resolveCall (catalog : Catalog) (name : String) (call : Fragment) (list : ArgumentList)
    (arguments : List (List Char)) : Except Error (List Char) :=
  match catalog.resolve name arguments.length with
  | some f => .ok (f.expandText arguments)
  | none =>
    .error (.unknownOverload name arguments.length call.offset
      (String.ofList (name.toList ++ '(' :: list.source ++ [')'])))

/-- The function that a token calls: a word of the catalog directly before a parenthesis. -/
def callName? (catalog : Catalog) (token : Token) (rest : List Char) : Option String :=
  match token, rest with
  | .word letters, '(' :: _ =>
    let name := String.ofList letters
    if catalog.containsName name then some name else none
  | _, _ => none

/-- The parentheses that are open behind a token. There are none to close with where a parenthesis
closes that was never opened. -/
def openedBehind? (opened : List Fragment) (here : Fragment) : Token → Option (List Fragment)
  | .symbol '(' => some (here :: opened)
  | .symbol ')' => opened.tail?
  | _ => some opened

/-- Expands the calls in a stretch of a query, with `expandArgument` for their arguments. `opened`
holds the query from each parenthesis that is open, the innermost first. -/
def expandCalls (catalog : Catalog)
    (expandArgument : Fragment → Except Error (List Char))
    (opened : List Fragment) (offset : Nat) (text : List Char) : Except Error (List Char) :=
  match text with
  | [] =>
    match opened with
    | [] => .ok []
    | opening :: _ => .error (opening.malformed .unclosedParenthesis)
  | c :: cs =>
    let here : Fragment := ⟨offset, c :: cs⟩
    match _found : nextToken? c cs with
    | none => .error (here.malformed (.unterminatedLiteral c))
    | some (token, rest) =>
      let next := offset + byteLength token.text
      match callName? catalog token rest with
      | some name =>
        match _read : readArguments name ⟨next, rest⟩ (next + 1) rest.tail with
        | .error e => .error e
        | .ok list => do
          let arguments ← list.arguments.mapM expandArgument
          let sql ← resolveCall catalog name here list arguments
          let after ←
            expandCalls catalog expandArgument opened list.behind.offset list.behind.text
          pure (sql ++ after)
      | none =>
        match openedBehind? opened here token with
        | none => .error (here.malformed .unbalancedParenthesis)
        | some opened => do
          let after ← expandCalls catalog expandArgument opened next rest
          pure (token.text ++ after)
termination_by text.length
decreasing_by
  · have := nextToken?_length _found
    have := readArguments_length _read
    have : rest.tail.length ≤ rest.length := by simp
    simp only [List.length_cons]
    omega
  · have := nextToken?_length _found
    simp only [List.length_cons]
    omega

/-- Expands a stretch of a query that may hold calls `levels - 1` deep; with no level left, any
stretch is nested too deeply. `limit` is the bound that the error names. -/
def expandFragment (catalog : Catalog) (limit : Nat) :
    Nat → Fragment → Except Error (List Char)
  | 0, fragment => .error (.depthExceeded limit fragment.offset fragment.snippet)
  | levels + 1, fragment =>
    expandCalls catalog (expandFragment catalog limit levels) [] fragment.offset fragment.text

/-- The greatest nesting of calls that is allowed where nothing else is said. -/
def defaultMaxDepth : Nat := 64

/-- Expands the portable calls of a query. The arguments of a call may lie in at most `maxDepth`
calls. -/
def expandQuery (catalog : Catalog) (maxDepth : Nat) (query : List Char) :
    Except Error (List Char) :=
  expandFragment catalog maxDepth (maxDepth + 1) ⟨0, query⟩

end PortableSql.Query
