import PortableSql.Proofs.Text.Trimming
import PortableSql.Proofs.Text.Utf8
import PortableSql.Value.Codec

/-!
# Text of a fixed width

A column of a fixed width takes the texts that have no more characters, and fills them up with blanks. What is
read is the text without the blanks at its end, whether the text or the column has put them there
(`Codec.fixed_width_text`): texts that differ only there are one text to such a column.
-/
namespace PortableSql

open Text

/-- A text with so many blanks behind it. -/
def withBlanks (s : String) (count : Nat) : String :=
  s ++ String.ofList (List.replicate count ' ')

/-- A text is another one without the blanks at its end. -/
structure IsStripped (t s : String) : Prop where
  filled : ∃ count, s = withBlanks t count
  ends : t.toList.getLast? ≠ some ' '

/-- Two texts differ in nothing but the blanks at their ends. -/
def SameButBlanks (s other : String) : Prop :=
  ∃ i j, withBlanks s i = withBlanks other j

section
variable {s t u other : String}

theorem toList_withBlanks (s : String) (count : Nat) :
    (withBlanks s count).toList = s.toList ++ List.replicate count ' ' := by
  simp [withBlanks]

theorem withBlanks_zero (s : String) : withBlanks s 0 = s := by
  simp [withBlanks]

theorem withBlanks_withBlanks (s : String) (i j : Nat) :
    withBlanks (withBlanks s i) j = withBlanks s (i + j) := by
  rw [← String.toList_inj]
  simp only [toList_withBlanks, List.append_assoc, List.replicate_append_replicate]

theorem length_withBlanks (s : String) (count : Nat) : (withBlanks s count).length = s.length + count := by
  simp [withBlanks]

theorem IsStripped.withBlanks (stripped : IsStripped t s) (count : Nat) :
    IsStripped t (withBlanks s count) := by
  obtain ⟨own, rfl⟩ := stripped.filled
  exact ⟨⟨own + count, withBlanks_withBlanks t own count⟩, stripped.ends⟩

theorem IsStripped.self (stripped : IsStripped t s) : IsStripped t t :=
  ⟨⟨0, (withBlanks_zero t).symm⟩, stripped.ends⟩

theorem IsStripped.length_le (stripped : IsStripped t s) : t.length ≤ s.length := by
  obtain ⟨count, rfl⟩ := stripped.filled
  rw [length_withBlanks]
  exact Nat.le_add_right _ _

/-! ## Taking blanks away -/

theorem dropEndWhile_append_blanks (text : List Char) (count : Nat) :
    dropEndWhile (· = ' ') (text ++ List.replicate count ' ') = dropEndWhile (· = ' ') text := by
  induction count with
  | zero => rw [List.replicate_zero, List.append_nil]
  | succ count ih =>
    rw [List.replicate_succ', ← List.append_assoc, dropEndWhile_concat, if_pos (by rfl)]
    exact ih

theorem dropEndWhile_eq_self {text : List Char} (ends : text.getLast? ≠ some ' ') :
    dropEndWhile (· = ' ') text = text := by
  rcases List.eq_nil_or_concat text with rfl | ⟨front, c, rfl⟩
  · rfl
  · have visible : c ≠ ' ' := by simpa using ends
    rw [List.concat_eq_append, dropEndWhile_concat, if_neg (by simpa using visible)]

theorem exists_blanks_behind (text : List Char) :
    ∃ count, text = dropEndWhile (· = ' ') text ++ List.replicate count ' ' := by
  refine ⟨(text.rtakeWhile (· = ' ')).length, ?_⟩
  have blanks : text.rtakeWhile (· = ' ') = List.replicate (text.rtakeWhile (· = ' ')).length ' ' :=
    List.eq_replicate_of_mem fun c member => by simpa using List.mem_rtakeWhile_imp member
  rw [← blanks, dropEndWhile_eq_rdropWhile, List.rdropWhile_append_rtakeWhile]

theorem isStripped_iff : IsStripped t s ↔ String.ofList (dropEndWhile (· = ' ') s.toList) = t := by
  rw [← String.toList_inj, String.toList_ofList]
  constructor
  · rintro ⟨⟨count, rfl⟩, ends⟩
    rw [toList_withBlanks, dropEndWhile_append_blanks, dropEndWhile_eq_self ends]
  · intro kept
    obtain ⟨count, whole⟩ := exists_blanks_behind s.toList
    rw [kept] at whole
    refine ⟨⟨count, ?_⟩, fun last => ?_⟩
    · rw [← String.toList_inj, toList_withBlanks, ← whole]
    · rw [← kept] at last
      exact absurd (getLast?_dropEndWhile last) (by decide)

theorem exists_isStripped (s : String) : ∃ t, IsStripped t s :=
  ⟨_, isStripped_iff.2 rfl⟩

theorem IsStripped.unique (first : IsStripped t s) (second : IsStripped u s) : t = u :=
  (isStripped_iff.1 first).symm.trans (isStripped_iff.1 second)

/-- Two texts differ in nothing but the blanks at their ends exactly if they agree without these. -/
theorem IsStripped.eq_iff (stripped : IsStripped t s) (strippedOther : IsStripped u other) :
    t = u ↔ SameButBlanks s other := by
  constructor
  · rintro rfl
    obtain ⟨i, rfl⟩ := stripped.filled
    obtain ⟨j, rfl⟩ := strippedOther.filled
    exact ⟨j, i, by rw [withBlanks_withBlanks, withBlanks_withBlanks, Nat.add_comm]⟩
  · rintro ⟨i, j, same⟩
    have filled := stripped.withBlanks i
    rw [same] at filled
    exact filled.unique (strippedOther.withBlanks j)

end

/-! ## Columns -/

namespace Codec

/-- A text of a column is read as a string, whether the driver gives it as text or as bytes. -/
structure LoadsAs (codec : Codec) (stored read : String) : Prop where
  text : codec.fromDatabase (.text stored) .string = .ok (.string read)
  bytes : codec.fromDatabase (.bytes (encodeUtf8 stored)) .string = .ok (.string read)

/-- A string is stored as it is, and read as another one, however many blanks the column appends. -/
structure ComesBackAs (codec : Codec) (encoders : Encoders) (compress : Bool) (s t : String) : Prop where
  stored : codec.toDatabase encoders (.string s) .string compress = .ok (.text s, .text)
  loaded : ∀ count, codec.LoadsAs (withBlanks s count) t

variable {codec : Codec} {encoders : Encoders} {width : Nat} {s t : String} {compress : Bool}

theorem loadsAs_loadText (codec : Codec) (stored : String) :
    codec.LoadsAs stored (codec.loadText stored) where
  text := rfl
  bytes := by
    simp [fromDatabase, load, loadValue, readAs, textOf?, StoredValue.type, decodeUtf8?_encodeUtf8]

theorem loadsAs_iff (fixed : codec.textPolicy = .fixedWidth width) :
    codec.LoadsAs s t ↔ IsStripped t s := by
  have kept : codec.loadText s = String.ofList (dropEndWhile (· = ' ') s.toList) := by
    rw [loadText, fixed]
  rw [isStripped_iff, ← kept]
  constructor
  · intro loads
    have same := (codec.loadsAs_loadText s).text.symm.trans loads.text
    exact Value.string.inj (Except.ok.inj same)
  · rintro rfl
    exact codec.loadsAs_loadText s

theorem toDatabase_string (fixed : codec.textPolicy = .fixedWidth width) (s : String) (compress : Bool) :
    codec.toDatabase encoders (.string s) .string compress =
      if s.length ≤ width then .ok (.text s, .text)
      else .error ⟨.toDatabase, .string, .text, .tooWide s.length width⟩ := by
  have stored : codec.store encoders .string compress (.string s) =
      if s.length ≤ width then .ok (.text s) else .error (.tooWide s.length width) := by
    simp [store, Value.isNull, storeValue, storeText, fixed]
  by_cases fits : s.length ≤ width
  · rw [toDatabase, stored, if_pos fits, if_pos fits]
    rfl
  · rw [toDatabase, stored, if_neg fits, if_neg fits]
    rfl

theorem comesBackAs_iff (fixed : codec.textPolicy = .fixedWidth width) :
    codec.ComesBackAs encoders compress s t ↔ s.length ≤ width ∧ IsStripped t s := by
  constructor
  · rintro ⟨stored, loaded⟩
    have bare := (loadsAs_iff fixed).1 (loaded 0)
    rw [withBlanks_zero] at bare
    refine ⟨?_, bare⟩
    by_contra wide
    rw [toDatabase_string fixed, if_neg wide] at stored
    cases stored
  · rintro ⟨fits, stripped⟩
    exact ⟨by rw [toDatabase_string fixed, if_pos fits],
      fun count => (loadsAs_iff fixed).2 (stripped.withBlanks count)⟩

/-- A column of a fixed width takes the strings that have no more characters. Each comes back without the
blanks at its end, which is a string that comes back as it is, and what two strings come back as agrees
exactly if they differ in nothing but these blanks. -/
theorem fixed_width_text (encoders : Encoders) (fixed : codec.textPolicy = .fixedWidth width) (s : String)
    (compress : Bool) :
    ((∃ stored, codec.toDatabase encoders (.string s) .string compress = .ok stored) ↔ s.length ≤ width) ∧
    (s.length ≤ width → ∃ t, IsStripped t s ∧ codec.ComesBackAs encoders compress s t ∧
      codec.ComesBackAs encoders compress t t ∧
      ∀ other u, codec.ComesBackAs encoders compress other u → (t = u ↔ SameButBlanks s other)) := by
  constructor
  · by_cases fits : s.length ≤ width
    · simp [toDatabase_string fixed, fits]
    · simp [toDatabase_string fixed, fits]
  · intro fits
    obtain ⟨t, stripped⟩ := exists_isStripped s
    refine ⟨t, stripped, (comesBackAs_iff fixed).2 ⟨fits, stripped⟩,
      (comesBackAs_iff fixed).2 ⟨stripped.length_le.trans fits, stripped.self⟩, fun other u comesBack => ?_⟩
    exact stripped.eq_iff ((comesBackAs_iff fixed).1 comesBack).2

/-- A text that fills its column, of more bytes than characters, with blanks and a tab besides the blank at
its end. -/
theorem fixed_width_text_of_full_column :
    let codec : Codec := ⟨.text, .fixedWidth 4⟩
    (codec.textPolicy = .fixedWidth 4 ∧ " ü\t ".length ≤ 4) ∧
      (∃ stored, codec.toDatabase .stored (.string " ü\t ") .string false = .ok stored) ∧
      codec.ComesBackAs .stored false " ü\t " " ü\t" ∧ SameButBlanks " ü\t " " ü\t" := by
  intro codec
  have fixed : codec.textPolicy = .fixedWidth 4 := rfl
  have fits : " ü\t ".length ≤ 4 := by decide
  obtain ⟨accepted, comes⟩ := fixed_width_text .stored fixed " ü\t " false
  obtain ⟨t, stripped, comesBack, again, agree⟩ := comes fits
  have bare : IsStripped " ü\t" " ü\t " := ⟨⟨1, rfl⟩, by decide⟩
  obtain rfl := stripped.unique bare
  exact ⟨⟨fixed, fits⟩, accepted.2 fits, comesBack, (agree _ _ again).1 rfl⟩

end Codec

end PortableSql
