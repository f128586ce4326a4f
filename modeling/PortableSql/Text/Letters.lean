/-!
Letter case and letter classes of the ASCII alphabet, the only ones that names are compared by.
Characters outside ASCII have no class here and are never changed.
-/
namespace PortableSql.Text

/-- A string with its ASCII capitals made small. -/
def foldCase (s : String) : String :=
  String.ofList (s.toList.map Char.toLower)

/-- Whether a character is an ASCII digit. -/
def isDigit (c : Char) : Bool :=
  '0' ≤ c && c ≤ '9'

/-- Whether a character may start a name: an ASCII letter or an underscore. -/
def isNameStart (c : Char) : Bool :=
  ('a' ≤ c && c ≤ 'z') || ('A' ≤ c && c ≤ 'Z') || c == '_'

/-- Whether a character may stand inside a name: an ASCII letter, a digit or an underscore. -/
def isNameChar (c : Char) : Bool :=
  isNameStart c || isDigit c

/-- The number of bytes that a text takes in UTF-8. -/
def byteLength : List Char → Nat
  | [] => 0
  | c :: rest => c.utf8Size + byteLength rest

theorem byteLength_append (s t : List Char) :
    byteLength (s ++ t) = byteLength s + byteLength t := by
  induction s with
  | nil => simp [byteLength]
  | cons c rest ih => simp [byteLength, ih, Nat.add_assoc]

/-- The value of a digit. -/
def digitValue (c : Char) : Nat :=
  c.toNat - '0'.toNat

/-- The number that a run of decimal digits denotes. -/
def decimalValue (digits : List Char) : Nat :=
  digits.foldl (fun value c => 10 * value + digitValue c) 0

end PortableSql.Text
