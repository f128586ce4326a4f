import PortableSql.Toml.Scalar

/-!
Reading TOML 1.0 documents: lines that are empty, hold a header or give a key a value, each with an
optional comment. A document that says two things of one key is not read.
-/
namespace PortableSql.Toml

/-- Reads the items of an array behind its opening bracket. A comma may follow the last one. -/
def readItems (readValue : List Char → Option (Value × List Char)) (text : List Char) :
    Option (List Value × List Char) :=
  match skipLines text with
  | ']' :: rest => some ([], rest)
  | start =>
    match readValue start with
    | none => none
    | some (item, rest) =>
      match skipLines rest with
      | ']' :: rest => some ([item], rest)
      | ',' :: rest =>
        if rest.length < text.length then
          (readItems readValue rest).map fun (items, rest) => (item :: items, rest)
        else
          none
      | _ => none
termination_by text.length

/-- Reads a key, its equals sign and its value. -/
def readPair (readValue : List Char → Option (Value × List Char)) (text : List Char) :
    Option (Key × Value × List Char) := do
  let (key, rest) ← readKey text
  let rest ← readMark '=' rest
  let (value, rest) ← readValue (skipGaps rest)
  return (key, value, rest)

/-- Reads the pairs of a table behind its opening brace, at least one and all on one line, and adds them
to entries. No comma may follow the last one. -/
def readPairs (readValue : List Char → Option (Value × List Char)) (entries : Entries)
    (text : List Char) : Option (Entries × List Char) :=
  match readPair readValue text with
  | none => none
  | some (key, value, rest) =>
    match addValue key value .braces entries with
    | none => none
    | some entries =>
      match skipGaps rest with
      | '\x7d' :: rest => some (entries, rest)
      | ',' :: rest =>
        if rest.length < text.length then readPairs readValue entries rest else none
      | _ => none
termination_by text.length

/-- The text behind a word that it starts with. -/
def dropWord (word : String) (text : List Char) : Option (List Char) :=
  if word.toList.isPrefixOf text then some (text.drop word.length) else none

/-- Reads a value with at most `levels` levels of arrays and tables in braces. -/
def readValue : Nat → List Char → Option (Value × List Char)
  | levels, text =>
    match text, levels with
    | '"' :: rest, _ => (readString '"' rest).map fun (s, rest) => (.string s, rest)
    | '\'' :: rest, _ => (readString '\'' rest).map fun (s, rest) => (.string s, rest)
    | 't' :: rest, _ => (dropWord "rue" rest).map fun rest => (.boolean true, rest)
    | 'f' :: rest, _ => (dropWord "alse" rest).map fun rest => (.boolean false, rest)
    | '[' :: rest, levels + 1 =>
      (readItems (readValue levels) rest).map fun (items, rest) => (.array items, rest)
    | '\x7b' :: rest, levels + 1 =>
      match skipGaps rest with
      | '\x7d' :: rest => some (.table .braces [], rest)
      | rest =>
        (readPairs (readValue levels) [] rest).map fun (entries, rest) =>
          (.table .braces entries, rest)
    | text, _ => readScalar text

/-- Reads a header, which is a key in one pair of brackets or in two. -/
def readHeader (text : List Char) : Option (Statement × List Char) :=
  match text with
  | '[' :: rest => do
    let (key, rest) ← readKey rest
    let rest ← readMark ']' rest
    let rest ← readMark ']' rest
    return (.element key, rest)
  | text => do
    let (key, rest) ← readKey text
    let rest ← readMark ']' rest
    return (.table key, rest)

/-- Reads the statement at the beginning of a line, if the line has one. -/
def readStatement (text : List Char) : Option (Option Statement × List Char) :=
  match skipGaps text with
  | [] => some (none, [])
  | '#' :: rest => some (none, '#' :: rest)
  | '\n' :: rest => some (none, '\n' :: rest)
  | '[' :: rest => (readHeader rest).map fun (statement, rest) => (some statement, rest)
  | text =>
    (readPair (readValue maxNesting) text).map fun (key, value, rest) =>
      (some (.value key value), rest)

/-- Carries out the statements of the lines of a text. -/
def readLines (draft : Draft) (text : List Char) : Option Draft :=
  if text.isEmpty then some draft
  else
    match readStatement text with
    | none => none
    | some (statement, rest) =>
      match readLineTail rest with
      | none => none
      | some behind =>
        let next : Option Draft :=
          match statement with
          | some statement => draft.add statement
          | none => some draft
        match next with
        | none => none
        | some draft => if behind.length < text.length then readLines draft behind else none
termination_by text.length

/-- The mark that may stand at the beginning of a document. -/
def byteOrderMark : Char := '\uFEFF'

/-- Reads a whole text as one document and gives the entries of its tree. -/
def read (text : List Char) : Option Entries :=
  let text := unifyLineEnds text
  let text := if text.head? = some byteOrderMark then text.drop 1 else text
  (readLines .empty text).map Draft.entries

end PortableSql.Toml
