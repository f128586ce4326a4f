import PortableSql.Text.Blank

/-!
Collections of links, and their text: one link on a line, the title in front of the address with a tab in
between, or the address alone. Only links that the text can tell apart are written. Reading skips blank
lines and takes a carriage return at the end of a line for a part of the line's end.
-/
namespace PortableSql

open Text

structure Link where
  title : Option String
  url : String
  deriving DecidableEq, Repr

/-- Why a link cannot be written or read. -/
inductive LinkFault
  | brokenTitle | brokenUrl | blankUrl | notALink
  deriving DecidableEq, Repr

/-- A fault and the line that it is on, counted from 1. -/
structure LinkError where
  line : Nat
  fault : LinkFault
  deriving DecidableEq, Repr

namespace LinkError

def message (e : LinkError) : String :=
  let reason :=
    match e.fault with
    | .brokenTitle => "title contains a tab or line break"
    | .brokenUrl => "url contains a tab or line break"
    | .blankUrl => "url is blank"
    | .notALink => "expected \x60url\x60 or \x60title<TAB>url\x60"
  s!"invalid link on line {e.line}: {reason}"

end LinkError

structure LinkCollection where
  links : List Link
  deriving DecidableEq, Repr

namespace Link

/-- Whether a text holds a character that ends a part of a line. -/
def breaksLine (text : List Char) : Bool :=
  text.any fun c => c == '\t' || c == '\n' || c == '\r'

/-- Why a link cannot be written, if it cannot. -/
def fault? (link : Link) : Option LinkFault :=
  if (link.title.map fun title => breaksLine title.toList) = some true then some .brokenTitle
  else if breaksLine link.url.toList then some .brokenUrl
  else if allBlank link.url.toList then some .blankUrl
  else none

/-- The line of a link. -/
def line (link : Link) : List Char :=
  match link.title with
  | some title => title.toList ++ '\t' :: link.url.toList
  | none => link.url.toList

/-- Reads the link on a line. -/
def ofLine (line : List Char) : Except LinkFault Link :=
  let front := line.takeWhile (· ≠ '\t')
  let (title, url) :=
    match line.dropWhile (· ≠ '\t') with
    | _ :: url => (some (String.ofList front), url)
    | [] => (none, line)
  if url.isEmpty || url.contains '\t' then .error .notALink
  else .ok ⟨title, String.ofList url⟩

end Link

/-- The lines of a text, without the line feeds and the carriage returns before them. A line feed at the
end begins no further line. -/
def splitLines (text : List Char) : List (List Char) :=
  match text with
  | [] => []
  | c :: rest =>
    let line := (c :: rest).takeWhile (· ≠ '\n')
    match _found : (c :: rest).dropWhile (· ≠ '\n') with
    | [] => [line]
    | _ :: behind =>
      let kept := if line.getLast? = some '\r' then line.dropLast else line
      kept :: splitLines behind
termination_by text.length
decreasing_by
  have shorter := (List.dropWhile_suffix (l := c :: rest) (· ≠ '\n')).length_le
  rw [_found] at shorter
  exact shorter

namespace LinkCollection

def empty : LinkCollection := ⟨[]⟩

/-- The collection with one more link at its end. -/
def push (collection : LinkCollection) (link : Link) : LinkCollection :=
  ⟨collection.links ++ [link]⟩

def size (collection : LinkCollection) : Nat :=
  collection.links.length

def isEmpty (collection : LinkCollection) : Bool :=
  collection.links.isEmpty

/-- The lines of the links, whether they can be told apart or not. -/
def display (collection : LinkCollection) : String :=
  String.ofList (List.intercalate ['\n'] (collection.links.map Link.line))

/-- The first fault among links, the first of which is on line `line`. -/
def firstError? (line : Nat) : List Link → Option LinkError
  | [] => none
  | link :: rest =>
    match link.fault? with
    | some fault => some ⟨line, fault⟩
    | none => firstError? (line + 1) rest

/-- The text of links that can be read back. -/
def toText (collection : LinkCollection) : Except LinkError String :=
  match firstError? 1 collection.links with
  | some e => .error e
  | none => .ok collection.display

/-- Reads the links on lines, the first of which is line `line`. -/
def readLines (line : Nat) : List (List Char) → Except LinkError (List Link)
  | [] => .ok []
  | text :: rest =>
    if allBlank text then readLines (line + 1) rest
    else
      match Link.ofLine text with
      | .error fault => .error ⟨line, fault⟩
      | .ok link => (readLines (line + 1) rest).map (link :: ·)

def read (text : String) : Except LinkError LinkCollection :=
  (readLines 1 (splitLines text.toList)).map .mk

end LinkCollection

end PortableSql
