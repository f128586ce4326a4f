import PortableSql.Text.Hex
import PortableSql.Toml.Basic

/-!
What TOML text is made of below its values: blanks, comments, strings and keys. Every reader takes a text
and gives what it read together with the text behind it. Lines end with a line feed here, because carriage
returns before line feeds are dropped beforehand; any other carriage return is a control character.
-/
namespace PortableSql.Toml

open Text

/-- Whether a character is blank inside a line. -/
def isGap (c : Char) : Bool :=
  c == ' ' || c == '\t'

def skipGaps (text : List Char) : List Char :=
  text.dropWhile isGap

/-- Whether a character may stand in comments and strings: control characters may not, except tabs. -/
def isTextChar (c : Char) : Bool :=
  c == '\t' || (0x20 ≤ c.toNat && c.toNat != 0x7F)

/-- Drops the carriage return of every line end. -/
def unifyLineEnds : List Char → List Char
  | '\r' :: '\n' :: rest => '\n' :: unifyLineEnds rest
  | c :: rest => c :: unifyLineEnds rest
  | [] => []

/-- The text behind the blanks, the comment and the end of a line; the last line needs no end. -/
def readLineTail (text : List Char) : Option (List Char) :=
  let behind :=
    match skipGaps text with
    | '#' :: comment => comment.dropWhile isTextChar
    | text => text
  match behind with
  | [] => some []
  | '\n' :: rest => some rest
  | _ => none

/-- The text behind blanks and line ends. -/
def skipBreaks (text : List Char) : List Char :=
  text.dropWhile fun c => isGap c || c == '\n'

/-- The text behind blanks, line ends and comments, as they may stand between the items of an array. -/
def skipLines (text : List Char) : List Char :=
  match text with
  | [] => []
  | c :: rest =>
    if isGap c || c == '\n' then skipLines rest
    else if c = '#' then skipLines (rest.dropWhile isTextChar)
    else c :: rest
termination_by text.length
decreasing_by
  · simp
  · have := (List.dropWhile_suffix (l := rest) isTextChar).length_le
    simp only [List.length_cons]
    omega

/-- Reads the character with the number that `width` hexadecimal digits give. -/
def readCodePoint (width : Nat) (text : List Char) : Option (Char × List Char) :=
  let digits := (text.take width).filterMap hexValue?
  let n := digits.foldl (fun n digit => 16 * n + digit) 0
  if digits.length = width ∧ n.isValidChar then some (Char.ofNat n, text.drop width) else none

/-- Reads an escape behind its backslash. -/
def readEscape (text : List Char) : Option (Char × List Char) :=
  match text with
  | '"' :: rest => some ('"', rest)
  | '\\' :: rest => some ('\\', rest)
  | 'b' :: rest => some (Char.ofNat 0x08, rest)
  | 'f' :: rest => some (Char.ofNat 0x0C, rest)
  | 'n' :: rest => some ('\n', rest)
  | 'r' :: rest => some ('\r', rest)
  | 't' :: rest => some ('\t', rest)
  | 'u' :: rest => readCodePoint 4 rest
  | 'U' :: rest => readCodePoint 8 rest
  | _ => none

/-- Reads a string of one line behind its opening quote. Double quotes have escapes inside. -/
def readShort (quote : Char) (text : List Char) : Option (List Char × List Char) :=
  match text with
  | [] => none
  | c :: rest =>
    if c = quote then some ([], rest)
    else if c = '\\' ∧ quote = '"' then
      match readEscape rest with
      | none => none
      | some (c, behind) =>
        if behind.length ≤ rest.length then
          (readShort quote behind).map fun (s, rest) => (c :: s, rest)
        else
          none
    else if isTextChar c then (readShort quote rest).map fun (s, rest) => (c :: s, rest)
    else none
termination_by text.length

/-- Whether a text starts with three quotes. -/
def startsTriple (quote : Char) (text : List Char) : Bool :=
  [quote, quote, quote].isPrefixOf text

/-- Reads a string of several lines behind its opening quotes. Of a run of quotes at the end, up to two
belong to the string. With double quotes, a backslash at the end of a line takes away the line end and
all blanks and line ends behind it. -/
def readLong (quote : Char) (text : List Char) : Option (List Char × List Char) :=
  match text with
  | [] => none
  | c :: rest =>
    if startsTriple quote (c :: rest) then
      let extra := ((rest.drop 2).take 2).takeWhile (· = quote)
      some (extra, rest.drop (2 + extra.length))
    else if c = '\\' ∧ quote = '"' then
      match skipGaps rest with
      | '\n' :: behind =>
        if (skipBreaks behind).length ≤ rest.length then readLong quote (skipBreaks behind) else none
      | _ =>
        match readEscape rest with
        | none => none
        | some (c, behind) =>
          if behind.length ≤ rest.length then
            (readLong quote behind).map fun (s, rest) => (c :: s, rest)
          else
            none
    else if isTextChar c || c == '\n' then
      (readLong quote rest).map fun (s, rest) => (c :: s, rest)
    else none
termination_by text.length

/-- Reads a string that may have several lines, behind its first quote. A line end directly behind three
opening quotes is not part of the string. -/
def readString (quote : Char) (text : List Char) : Option (String × List Char) :=
  let content :=
    if [quote, quote].isPrefixOf text then
      match text.drop 2 with
      | '\n' :: rest => readLong quote rest
      | rest => readLong quote rest
    else
      readShort quote text
  content.map fun (s, rest) => (String.ofList s, rest)

/-- Whether a character may stand in a key without quotes. -/
def isKeyChar (c : Char) : Bool :=
  isNameChar c || c == '-'

/-- Reads one part of a key. -/
def readKeyPart (text : List Char) : Option (String × List Char) :=
  match text with
  | '"' :: rest => (readShort '"' rest).map fun (s, rest) => (String.ofList s, rest)
  | '\'' :: rest => (readShort '\'' rest).map fun (s, rest) => (String.ofList s, rest)
  | text =>
    let name := text.takeWhile isKeyChar
    if name.isEmpty then none else some (String.ofList name, text.dropWhile isKeyChar)

/-- The greatest number of parts of a key, and of levels of arrays and tables in braces. -/
def maxNesting : Nat := 79

/-- Reads a key of at most a number of parts, with dots between them and blanks around each. -/
def readKeyParts : Nat → List Char → Option (List String × String × List Char)
  | 0, _ => none
  | parts + 1, text =>
    match readKeyPart (skipGaps text) with
    | none => none
    | some (part, rest) =>
      match skipGaps rest with
      | '.' :: rest =>
        (readKeyParts parts rest).map fun (path, name, rest) => (part :: path, name, rest)
      | rest => some ([], part, rest)

def readKey (text : List Char) : Option (Key × List Char) :=
  (readKeyParts maxNesting text).map fun (path, name, rest) => (⟨path, name⟩, rest)

end PortableSql.Toml
