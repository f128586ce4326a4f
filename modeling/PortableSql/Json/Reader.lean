import PortableSql.Json.Number
import PortableSql.Table
import PortableSql.Text.Hex

/-!
Reading JSON strictly: nothing but the grammar of RFC 8259 is accepted, and nothing may follow the
document. Of members with the same key the last one counts. Arrays and objects nest at most 127 deep.
-/
namespace PortableSql.Json

open Text

/-- The greatest nesting of arrays and objects. -/
def maxNesting : Nat := 127

/-- Whether a character may stand between the tokens of a document. -/
def isSpace (c : Char) : Bool :=
  c == ' ' || c == '\t' || c == '\n' || c == '\r'

def skipSpace (text : List Char) : List Char :=
  text.dropWhile isSpace

/-- Reads four hexadecimal digits. -/
def readUnit (text : List Char) : Option (Nat × List Char) :=
  match text with
  | a :: b :: c :: d :: rest => do
    let a ← hexValue? a
    let b ← hexValue? b
    let c ← hexValue? c
    let d ← hexValue? d
    some (4096 * a + 256 * b + 16 * c + d, rest)
  | _ => none

/-- Reads the character that four hexadecimal digits stand for, or two times four with an escape in
between for the characters that have no such number. -/
def readEscapedUnit (text : List Char) : Option (Char × List Char) :=
  match readUnit text with
  | none => none
  | some (high, rest) =>
    if 0xD800 ≤ high ∧ high < 0xDC00 then
      match rest with
      | '\\' :: 'u' :: rest =>
        match readUnit rest with
        | none => none
        | some (low, rest) =>
          if 0xDC00 ≤ low ∧ low < 0xE000 then
            some (Char.ofNat (0x10000 + 1024 * (high - 0xD800) + (low - 0xDC00)), rest)
          else
            none
      | _ => none
    else if 0xDC00 ≤ high ∧ high < 0xE000 then
      none
    else
      some (Char.ofNat high, rest)

/-- Reads an escape behind its backslash. -/
def readEscape (text : List Char) : Option (Char × List Char) :=
  match text with
  | '"' :: rest => some ('"', rest)
  | '\\' :: rest => some ('\\', rest)
  | '/' :: rest => some ('/', rest)
  | 'b' :: rest => some (Char.ofNat 0x08, rest)
  | 'f' :: rest => some (Char.ofNat 0x0C, rest)
  | 'n' :: rest => some ('\n', rest)
  | 'r' :: rest => some ('\r', rest)
  | 't' :: rest => some ('\t', rest)
  | 'u' :: rest => readEscapedUnit rest
  | _ => none

/-- Reads a string behind its opening quote. -/
def readString (text : List Char) : Option (List Char × List Char) :=
  match text with
  | [] => none
  | '"' :: rest => some ([], rest)
  | '\\' :: rest =>
    match readEscape rest with
    | none => none
    | some (c, behind) =>
      if behind.length ≤ rest.length then
        (readString behind).map fun (s, rest) => (c :: s, rest)
      else
        none
  | c :: rest =>
    if c.toNat < 0x20 then none
    else (readString rest).map fun (s, rest) => (c :: s, rest)
termination_by text.length

/-- Reads the elements of an array behind its bracket, which is not directly closed. -/
def readItems (readValue : List Char → Option (Json × List Char)) (text : List Char) :
    Option (List Json × List Char) :=
  match readValue text with
  | none => none
  | some (item, rest) =>
    match skipSpace rest with
    | ']' :: rest => some ([item], rest)
    | ',' :: rest =>
      if rest.length < text.length then
        (readItems readValue rest).map fun (items, rest) => (item :: items, rest)
      else
        none
    | _ => none
termination_by text.length

/-- Reads the key of a member with its colon. -/
def readKey (text : List Char) : Option (String × List Char) :=
  match skipSpace text with
  | '"' :: rest =>
    match readString rest with
    | none => none
    | some (key, rest) =>
      match skipSpace rest with
      | ':' :: rest => some (String.ofList key, rest)
      | _ => none
  | _ => none

/-- Reads the members of an object behind its brace, which is not directly closed. -/
def readMembers (readValue : List Char → Option (Json × List Char))
    (members : List (String × Json)) (text : List Char) :
    Option (List (String × Json) × List Char) :=
  match readKey text with
  | none => none
  | some (key, rest) =>
    match readValue rest with
    | none => none
    | some (value, rest) =>
      let members := Table.insertEntry key value members
      match skipSpace rest with
      | '\x7d' :: rest => some (members, rest)
      | ',' :: rest =>
        if rest.length < text.length then readMembers readValue members rest else none
      | _ => none
termination_by text.length

/-- The text behind a word that it starts with. -/
def dropWord (word : String) (text : List Char) : Option (List Char) :=
  if word.toList.isPrefixOf text then some (text.drop word.length) else none

/-- Reads a document with at most `levels` levels of arrays and objects. -/
def readValue : Nat → List Char → Option (Json × List Char)
  | levels, text =>
    match skipSpace text, levels with
    | 'n' :: rest, _ => (dropWord "ull" rest).map fun rest => (.null, rest)
    | 't' :: rest, _ => (dropWord "rue" rest).map fun rest => (.bool true, rest)
    | 'f' :: rest, _ => (dropWord "alse" rest).map fun rest => (.bool false, rest)
    | '"' :: rest, _ => (readString rest).map fun (s, rest) => (.string (String.ofList s), rest)
    | '[' :: rest, levels + 1 =>
      match skipSpace rest with
      | ']' :: rest => some (.array [], rest)
      | _ => (readItems (readValue levels) rest).map fun (items, rest) => (.array items, rest)
    | '\x7b' :: rest, levels + 1 =>
      match skipSpace rest with
      | '\x7d' :: rest => some (.object [], rest)
      | _ =>
        (readMembers (readValue levels) [] rest).map fun (members, rest) => (.object members, rest)
    | text, _ => readNumber text

/-- Reads a whole text as one document. -/
def read (text : List Char) : Option Json :=
  match readValue maxNesting text with
  | some (json, rest) => if (skipSpace rest).isEmpty then some json else none
  | none => none

end PortableSql.Json
