import PortableSql.Query.Error
import PortableSql.Query.Token
import PortableSql.Text.Blank

/-!
Argument lists. The text behind the parenthesis that opens a call is split at the commas that stand
in no nested parenthesis, quoted span or comment, up to the parenthesis that closes the call. Each
piece without its surrounding blanks is an argument, and a list of blanks is no argument at all. An
argument that ends in a comment keeps the line end behind it, which closes the comment.
-/
namespace PortableSql.Query

open Text

/-- What stands between two commas of an argument list. -/
structure Piece where
  /-- The query from the beginning of the piece on. -/
  start : Fragment
  raw : List Char
  /-- The number of characters up to the end of the last comment in the piece. -/
  commentEnd : Option Nat
  deriving DecidableEq, Repr

/-- How the search for the end of an argument list went. -/
inductive Ending
  /-- The list is closed, and the query goes on with `behind`. -/
  | closed (behind : Fragment)
  | unterminated (quote : Char) (literal : Fragment)
  | unclosed
  deriving DecidableEq, Repr

/-- The pieces of an argument list. Where the list is not closed, the last one is unfinished. -/
structure Split where
  first : Piece
  later : List Piece
  ending : Ending
  deriving DecidableEq, Repr

namespace Piece

/-- The piece that begins at a fragment and holds nothing yet. -/
def emptyAt (start : Fragment) : Piece :=
  ⟨start, [], none⟩

/-- The piece with one more token in front. -/
def extend (piece : Piece) (start : Fragment) (token : Token) : Piece where
  start := start
  raw := token.text ++ piece.raw
  commentEnd :=
    match piece.commentEnd, token with
    | some count, _ => some (token.text.length + count)
    | none, .comment text => some text.length
    | none, _ => none

/-- The characters of the piece that are kept at its end: all but trailing blanks, and the line end
directly behind a comment. -/
def kept (piece : Piece) : List Char :=
  let body := trimEnd piece.raw
  if piece.commentEnd = some body.length ∧ (piece.raw.drop body.length).head? = some '\n' then
    body ++ ['\n']
  else
    body

/-- The argument that a piece holds. -/
def argument (piece : Piece) : Fragment where
  offset := piece.start.offset + byteLength (piece.kept.takeWhile isBlank)
  text := trimStart piece.kept

/-- The argument that a piece of a call to `name` holds; a blank piece is an error. -/
def argument? (name : String) (piece : Piece) : Except Error Fragment :=
  if allBlank piece.raw then
    .error (piece.start.malformed (.emptyArgument name))
  else
    .ok piece.argument

end Piece

namespace Split

def pieces (split : Split) : List Piece :=
  split.first :: split.later

/-- The split with one more token at the beginning of its first piece. -/
def extend (split : Split) (start : Fragment) (token : Token) : Split :=
  { split with first := split.first.extend start token }

end Split

/-- The number of open parentheses behind a token. -/
def depthBehind (depth : Nat) : Token → Nat
  | .symbol '(' => depth + 1
  | .symbol ')' => depth - 1
  | _ => depth

/-- Splits the text behind an opening parenthesis; `depth` counts the parentheses opened since. -/
def splitPieces (depth offset : Nat) (text : List Char) : Split :=
  match text with
  | [] => ⟨.emptyAt ⟨offset, []⟩, [], .unclosed⟩
  | c :: cs =>
    match _found : nextToken? c cs with
    | none => ⟨.emptyAt ⟨offset, c :: cs⟩, [], .unterminated c ⟨offset, c :: cs⟩⟩
    | some (token, rest) =>
      let next := offset + byteLength token.text
      if depth = 0 ∧ token = .symbol ')' then
        ⟨.emptyAt ⟨offset, c :: cs⟩, [], .closed ⟨next, rest⟩⟩
      else
        let split := splitPieces (depthBehind depth token) next rest
        if depth = 0 ∧ token = .symbol ',' then
          ⟨.emptyAt ⟨offset, c :: cs⟩, split.pieces, split.ending⟩
        else
          split.extend ⟨offset, c :: cs⟩ token
termination_by text.length
decreasing_by
  have := nextToken?_length _found
  simp only [List.length_cons]
  omega

/-- The argument list of a call, read up to its closing parenthesis. -/
structure ArgumentList where
  arguments : List Fragment
  /-- The list as it is written between the parentheses. -/
  source : List Char
  /-- What follows the closing parenthesis. -/
  behind : Fragment
  deriving DecidableEq, Repr

namespace Split

/-- The arguments that the pieces of a closed list hold: none where the only piece is blank. -/
def arguments (name : String) (split : Split) : Except Error (List Fragment) :=
  if split.later.isEmpty && allBlank split.first.raw then
    .ok []
  else
    split.pieces.mapM (Piece.argument? name)

/-- The list as it is written. -/
def source (split : Split) : List Char :=
  List.intercalate [','] (split.pieces.map Piece.raw)

end Split

/-- Reads the arguments of a call to `name` from the text behind its opening parenthesis; `opening`
is the query from that parenthesis on. A blank piece before the place where the list breaks off is
found first. -/
def readArguments (name : String) (opening : Fragment) (offset : Nat) (text : List Char) :
    Except Error ArgumentList :=
  let split := splitPieces 0 offset text
  match split.ending with
  | .closed behind => (split.arguments name).map fun arguments => ⟨arguments, split.source, behind⟩
  | .unterminated quote literal =>
    (split.pieces.dropLast.mapM (Piece.argument? name)).bind fun _ =>
      .error (literal.malformed (.unterminatedLiteral quote))
  | .unclosed =>
    (split.pieces.dropLast.mapM (Piece.argument? name)).bind fun _ =>
      .error (opening.malformed (.unclosedCall name))

theorem splitPieces_behind_length {depth offset : Nat} {text : List Char} {behind : Fragment}
    (closed : (splitPieces depth offset text).ending = .closed behind) :
    behind.text.length < text.length := by
  fun_induction splitPieces depth offset text with
  | case1 => cases closed
  | case2 => cases closed
  | case3 depth offset c cs token rest found next close =>
    cases closed
    have := nextToken?_length found
    simp only [List.length_cons]
    omega
  | case4 depth offset c cs token rest found next _ split comma ih =>
    have := nextToken?_length found
    have := ih closed
    simp only [List.length_cons]
    omega
  | case5 depth offset c cs token rest found next _ split other ih =>
    have := nextToken?_length found
    have := ih closed
    simp only [List.length_cons]
    omega

/-- What follows an argument list is shorter than the text that the list is read from. -/
theorem readArguments_length {name : String} {opening : Fragment} {offset : Nat} {text : List Char}
    {list : ArgumentList} (read : readArguments name opening offset text = .ok list) :
    list.behind.text.length < text.length := by
  unfold readArguments at read
  dsimp only at read
  split at read
  · rename_i behind closed
    revert read
    cases (splitPieces 0 offset text).arguments name with
    | error e => intro read; cases read
    | ok arguments => intro read; cases read; exact splitPieces_behind_length closed
  · revert read
    cases (splitPieces 0 offset text).pieces.dropLast.mapM (Piece.argument? name) <;>
      intro read <;> cases read
  · revert read
    cases (splitPieces 0 offset text).pieces.dropLast.mapM (Piece.argument? name) <;>
      intro read <;> cases read

end PortableSql.Query
