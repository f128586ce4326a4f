import PortableSql.Proofs.Query.ArgumentList
import PortableSql.Query.Calls

/-!
# Call trees

The grammar of queries, said on tokens and without any counter, stack or position: a query is made of
tokens that are copied, of balanced parentheses and of calls, and each argument of a call is a text of
its own with a tree of its own. A tree is evaluated from its leaves.
-/
namespace PortableSql.Query

open Text

/-- A part of a query. -/
inductive Part
  /-- A token that is copied. -/
  | copy (token : Token)
  /-- What stands in parentheses that open no call. -/
  | group (parts : List Part)
  /-- A call with the trees of its arguments. -/
  | call (name : String) (arguments : List (List Part))

/-- A word of the catalog directly before a parenthesis opens a call. -/
def OpensCall (catalog : Catalog) (token : Token) (behind : List Token) : Prop :=
  ∃ letters, token = .word letters ∧ behind.head? = some .opening ∧
    catalog.containsName (String.ofList letters) = true

mutual

/-- Tokens are the parts of a query. -/
inductive Derives (catalog : Catalog) : List Token → List Part → Prop
  | nil : Derives catalog [] []
  | copy {token : Token} {tokens : List Token} {parts : List Part} (notOpening : token ≠ .opening)
      (notClosing : token ≠ .closing) (noCall : ¬ OpensCall catalog token tokens)
      (rest : Derives catalog tokens parts) :
      Derives catalog (token :: tokens) (.copy token :: parts)
  | group {inner tokens : List Token} {inside parts : List Part}
      (within : Derives catalog inner inside) (rest : Derives catalog tokens parts) :
      Derives catalog (.opening :: (inner ++ .closing :: tokens)) (.group inside :: parts)
  /-- A list of blanks is no argument at all. -/
  | emptyCall {letters : List Char} {blanks tokens : List Token} {parts : List Part}
      (known : catalog.containsName (String.ofList letters) = true)
      (blank : ¬ IsVisible blanks) (rest : Derives catalog tokens parts) :
      Derives catalog (.word letters :: .opening :: (blanks ++ .closing :: tokens))
        (.call (String.ofList letters) [] :: parts)
  | call {letters : List Char} {pieces : List (List Token)} {tokens : List Token}
      {arguments : List (List Part)} {parts : List Part}
      (known : catalog.containsName (String.ofList letters) = true) (list : IsList pieces)
      (visible : IsVisible (List.intercalate [.comma] pieces))
      (each : DerivesEach catalog pieces arguments) (rest : Derives catalog tokens parts) :
      Derives catalog
        (.word letters :: .opening :: (List.intercalate [.comma] pieces ++ .closing :: tokens))
        (.call (String.ofList letters) arguments :: parts)

/-- The arguments that pieces hold have these trees. -/
inductive DerivesEach (catalog : Catalog) : List (List Token) → List (List Part) → Prop
  | nil : DerivesEach catalog [] []
  | cons {piece tokens : List Token} {pieces : List (List Token)} {parts : List Part}
      {arguments : List (List Part)} (reads : Reads (argumentText piece) tokens [])
      (argument : Derives catalog tokens parts) (rest : DerivesEach catalog pieces arguments) :
      DerivesEach catalog (piece :: pieces) (parts :: arguments)

end

/-! ## What a tree stands for -/

section
variable (catalog : Catalog)

mutual

/-- The text of a part, the calls in it replaced from the innermost on. -/
def Part.evaluate : Part → List Char
  | .copy token => token.text
  | .group parts => '(' :: (evaluateParts parts ++ [')'])
  | .call name arguments =>
    match catalog.resolve name arguments.length with
    | some f => f.expandText (evaluateEach arguments)
    | none => []

def evaluateParts : List Part → List Char
  | [] => []
  | part :: parts => part.evaluate ++ evaluateParts parts

def evaluateEach : List (List Part) → List (List Char)
  | [] => []
  | argument :: arguments => evaluateParts argument :: evaluateEach arguments

end

mutual

/-- All calls in a part have an overload and no blank argument. -/
def Part.Resolves : Part → Prop
  | .copy _ => True
  | .group parts => PartsResolve parts
  | .call name arguments =>
    (catalog.resolve name arguments.length).isSome = true ∧ EachResolves arguments

def PartsResolve : List Part → Prop
  | [] => True
  | part :: parts => part.Resolves ∧ PartsResolve parts

def EachResolves : List (List Part) → Prop
  | [] => True
  | argument :: arguments => argument ≠ [] ∧ PartsResolve argument ∧ EachResolves arguments

end

end

mutual

/-- The greatest number of calls around an argument in a part. -/
def Part.nesting : Part → Nat
  | .copy _ => 0
  | .group parts => nestingOf parts
  | .call _ arguments => nestingOfEach arguments

def nestingOf : List Part → Nat
  | [] => 0
  | part :: parts => max part.nesting (nestingOf parts)

def nestingOfEach : List (List Part) → Nat
  | [] => 0
  | argument :: arguments => max (nestingOf argument + 1) (nestingOfEach arguments)

end

end PortableSql.Query
