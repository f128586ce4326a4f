/-!
Blank characters and trimming. A character is blank when it has the Unicode property White_Space;
trimming removes blank characters at the ends of a text and nothing inside it.
-/
namespace PortableSql.Text

/-- Whether a character has the Unicode property White_Space. -/
def isBlank (c : Char) : Bool :=
  let n := c.toNat
  (0x09 ≤ n && n ≤ 0x0D) || n == 0x20 || n == 0x85 || n == 0xA0 || n == 0x1680
    || (0x2000 ≤ n && n ≤ 0x200A) || n == 0x2028 || n == 0x2029 || n == 0x202F || n == 0x205F
    || n == 0x3000

/-- The text without its leading blanks. -/
def trimStart (text : List Char) : List Char :=
  text.dropWhile isBlank

/-- The text without the characters at its end that satisfy a test. -/
def dropEndWhile (test : Char → Bool) : List Char → List Char
  | [] => []
  | c :: rest =>
    match dropEndWhile test rest with
    | [] => if test c then [] else [c]
    | kept => c :: kept

/-- The text without its trailing blanks. -/
def trimEnd (text : List Char) : List Char :=
  dropEndWhile isBlank text

/-- The text without its leading and trailing blanks. -/
def trim (text : List Char) : List Char :=
  trimEnd (trimStart text)

/-- Whether a text holds nothing but blanks. -/
def allBlank (text : List Char) : Bool :=
  text.all isBlank

/-- A string without its leading and trailing blanks. -/
def trimmed (s : String) : String :=
  String.ofList (trim s.toList)

/-- A string without its trailing blanks. -/
def trimmedEnd (s : String) : String :=
  String.ofList (trimEnd s.toList)

theorem dropEndWhile_append_drop (test : Char → Bool) (text : List Char) :
    dropEndWhile test text ++ text.drop (dropEndWhile test text).length = text := by
  induction text with
  | nil => rfl
  | cons c rest ih =>
    unfold dropEndWhile
    split
    · split <;> simp
    · rename_i kept h
      simpa using ih

theorem dropEndWhile_length_le (test : Char → Bool) (text : List Char) :
    (dropEndWhile test text).length ≤ text.length := by
  have h := congrArg List.length (dropEndWhile_append_drop test text)
  simp only [List.length_append] at h
  omega

end PortableSql.Text
