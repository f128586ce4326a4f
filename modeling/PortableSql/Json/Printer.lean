import PortableSql.Json.Number
import PortableSql.Text.Hex

/-!
Printing JSON: compact, without any blanks, or pretty, with a line for each element and two blanks of
indentation for each level.
-/
namespace PortableSql.Json

open Text

/-- A character inside a string. Only quotes, backslashes and control characters are escaped. -/
def escapeChar (c : Char) : List Char :=
  if c = '"' then ['\\', '"']
  else if c = '\\' then ['\\', '\\']
  else if c = '\n' then ['\\', 'n']
  else if c = '\r' then ['\\', 'r']
  else if c = '\t' then ['\\', 't']
  else if c.toNat = 0x08 then ['\\', 'b']
  else if c.toNat = 0x0C then ['\\', 'f']
  else if c.toNat < 0x20 then
    ['\\', 'u', '0', '0', hexDigit (c.toNat / 16), hexDigit (c.toNat % 16)]
  else [c]

def quoted (s : String) : List Char :=
  '"' :: (s.toList.flatMap escapeChar ++ ['"'])

mutual

/-- The text without any blanks. -/
def compactText : Json → List Char
  | .null => "null".toList
  | .bool true => "true".toList
  | .bool false => "false".toList
  | .whole n => (toString n).toList
  | .double x => doubleText x
  | .string s => quoted s
  | .array items => '[' :: compactItems items
  | .object members => '\x7b' :: compactMembers members

/-- The elements of an array and its closing bracket. -/
def compactItems : List Json → List Char
  | [] => [']']
  | [item] => compactText item ++ [']']
  | item :: items => compactText item ++ ',' :: compactItems items

/-- The members of an object and its closing brace. -/
def compactMembers : List (String × Json) → List Char
  | [] => ['\x7d']
  | [(key, value)] => quoted key ++ ':' :: compactText value ++ ['\x7d']
  | (key, value) :: members =>
    quoted key ++ ':' :: compactText value ++ ',' :: compactMembers members

end

def compact (json : Json) : String :=
  String.ofList json.compactText

/-- The end of a line and the indentation of the next one. -/
def newLine (level : Nat) : List Char :=
  '\n' :: List.replicate (2 * level) ' '

mutual

/-- The text with a line for each element. -/
def prettyText (level : Nat) : Json → List Char
  | .array [] => ['[', ']']
  | .array items => '[' :: prettyItems level items
  | .object [] => ['\x7b', '\x7d']
  | .object members => '\x7b' :: prettyMembers level members
  | json => json.compactText

def prettyItems (level : Nat) : List Json → List Char
  | [] => newLine level ++ [']']
  | [item] => newLine (level + 1) ++ prettyText (level + 1) item ++ newLine level ++ [']']
  | item :: items =>
    newLine (level + 1) ++ prettyText (level + 1) item ++ ',' :: prettyItems level items

def prettyMembers (level : Nat) : List (String × Json) → List Char
  | [] => newLine level ++ ['\x7d']
  | [(key, value)] =>
    newLine (level + 1) ++ quoted key ++ [':', ' '] ++ prettyText (level + 1) value
      ++ newLine level ++ ['\x7d']
  | (key, value) :: members =>
    newLine (level + 1) ++ quoted key ++ [':', ' '] ++ prettyText (level + 1) value
      ++ ',' :: prettyMembers level members

end

def pretty (json : Json) : String :=
  String.ofList (json.prettyText 0)

end PortableSql.Json
