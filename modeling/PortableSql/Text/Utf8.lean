/-!
Text as bytes in UTF-8.
-/
namespace PortableSql.Text

/-- The bytes of a string. -/
def encodeUtf8 (s : String) : List UInt8 :=
  s.toUTF8.data.toList

/-- The string that bytes encode, if they are well formed. -/
def decodeUtf8? (bytes : List UInt8) : Option String :=
  String.fromUTF8? ⟨bytes.toArray⟩

end PortableSql.Text
