import PortableSql.Proofs.Calendar.Reading

/-!
# Dates alone

A date alone is a year, a month and a day with hyphens between them, said without the reader. Exactly these
texts are read as dates (`readDate_eq_some_iff`). None of them is a timestamp with a time of day, since all
patterns of timestamps begin with the one of dates and want more behind it (`readDateTime_of_readDate`).
-/
namespace PortableSql.Calendar

open Text

/-- A text that is a year, a month and a day of the month with hyphens between them, and with any blanks
before each of the three. -/
inductive SpellsDate : List Char → Int → Nat → Nat → Prop
  | intro {beforeYear year beforeMonth month beforeDay day : List Char} {y : Int} {m n : Nat}
      (blankYear : allBlank beforeYear = true) (isYear : IsYear year y)
      (blankMonth : allBlank beforeMonth = true) (isMonth : IsNumeral 2 month m)
      (blankDay : allBlank beforeDay = true) (isDay : IsNumeral 2 day n) :
      SpellsDate (beforeYear ++ (year ++ '-' :: (beforeMonth ++ (month ++ '-' :: (beforeDay ++ day))))) y m n

/-- A text that is a date alone, with any blanks around it. -/
def IsBareDate (text : List Char) (d : Date) : Prop :=
  ∃ spelled blanks, text = spelled ++ blanks ∧ allBlank blanks = true ∧
    SpellsDate spelled d.year d.month d.day

/-! ## One number of a date -/

namespace IsYear

variable {text : List Char} {year : Int}

theorem exists_head (isYear : IsYear text year) : ∃ c rest, text = c :: rest ∧ isBlank c = false := by
  cases isYear with
  | short numeral =>
    obtain ⟨c, rest, same, digit⟩ := numeral.exists_head
    exact ⟨c, rest, same, isBlank_of_isDigit digit⟩
  | plus => exact ⟨_, _, rfl, rfl⟩
  | minus => exact ⟨_, _, rfl, rfl⟩

theorem trimStart_append (isYear : IsYear text year) (rest : List Char) :
    trimStart (text ++ rest) = text ++ rest := by
  obtain ⟨c, later, rfl, visible⟩ := isYear.exists_head
  exact trimStart_cons_of_not_blank visible _

end IsYear

namespace Part

variable {part : Part} {fields after : Fields} {text rest blanks year : List Char} {y : Int}

theorem read_append_of_allBlank (number : part.isNumber = true) (blank : allBlank blanks = true) :
    part.read fields (blanks ++ text) = part.read fields text := by
  cases part with
  | fraction | gap | mark => cases number
  | _ => simp only [Part.read, trimStart_append_of_allBlank blank]

/-- A part reads its number behind blanks. -/
theorem read_behind_blanks (part : Part) {digits : List Char} {n : Nat} (number : part.isNumber = true)
    (blank : allBlank blanks = true) (numeral : IsNumeral part.width digits n) (stops : NoDigit rest) :
    part.read fields (blanks ++ (digits ++ rest)) = some (part.put fields n, rest) := by
  rw [read_append_of_allBlank number blank, part.read_numeral number numeral stops]

theorem read_year (blank : allBlank blanks = true) (isYear : IsYear year y) (stops : NoDigit rest) :
    Part.read fields (blanks ++ (year ++ rest)) .year = some ({ fields with year := some y }, rest) := by
  rw [read_append_of_allBlank rfl blank]
  simp [Part.read, isYear.trimStart_append, readYear_of_isYear isYear stops]

theorem exists_isYear_of_read (read : Part.read fields text .year = some (after, rest)) :
    ∃ blanks year y, text = blanks ++ (year ++ rest) ∧ allBlank blanks = true ∧ IsYear year y ∧
      after = { fields with year := some y } := by
  obtain ⟨⟨y, behind⟩, found, same⟩ := Option.map_eq_some_iff.1 read
  cases same
  obtain ⟨year, shape, isYear⟩ := exists_isYear_of_readYear found
  refine ⟨text.takeWhile isBlank, year, y, ?_, List.all_takeWhile, isYear, rfl⟩
  rw [← shape, trimStart, List.takeWhile_append_dropWhile]

theorem exists_numeral_of_read (part : Part) (number : part.isNumber = true) (notYear : part ≠ .year)
    (read : part.read fields text = some (after, rest)) :
    ∃ blanks digits n, text = blanks ++ (digits ++ rest) ∧ allBlank blanks = true ∧
      IsNumeral 2 digits n ∧ after = part.put fields n := by
  have leading : text = text.takeWhile isBlank ++ trimStart text :=
    (List.takeWhile_append_dropWhile ..).symm
  cases part with
  | fraction | gap | mark => cases number
  | year => exact absurd rfl notYear
  | month | day | hour | minute | second =>
    obtain ⟨⟨n, behind⟩, found, same⟩ := Option.map_eq_some_iff.1 read
    cases same
    obtain ⟨digits, shape, numeral⟩ := exists_numeral_of_readDigits found
    rw [shape] at leading
    exact ⟨_, digits, n, leading, List.all_takeWhile, numeral, rfl⟩

theorem read_mark (c : Char) : Part.read fields (c :: rest) (.mark c) = some (fields, rest) :=
  if_pos rfl

theorem eq_cons_of_read_mark {c : Char} (read : Part.read fields text (.mark c) = some (after, rest)) :
    text = c :: rest ∧ after = fields := by
  unfold Part.read at read
  dsimp only at read
  split at read
  · split at read
    · rename_i same
      cases read
      exact ⟨same ▸ rfl, rfl⟩
    · cases read
  · cases read

end Part

/-! ## The whole date -/

section
variable {text : List Char} {d : Date} {y : Int} {m n : Nat}

theorem SpellsDate.append {blanks : List Char} (blank : allBlank blanks = true)
    (spells : SpellsDate text y m n) : SpellsDate (blanks ++ text) y m n := by
  obtain ⟨blankYear, isYear, blankMonth, isMonth, blankDay, isDay⟩ := spells
  rw [← List.append_assoc]
  refine .intro ?_ isYear blankMonth isMonth blankDay isDay
  simp only [allBlank, List.all_append, Bool.and_eq_true] at blank blankYear ⊢
  exact ⟨blank, blankYear⟩

/-- The pattern of dates reads exactly the texts that spell a date, and puts their numbers into the fields. -/
theorem readParts_isoDate_iff {fields : Fields} : Pattern.isoDate.readParts .none text = some fields ↔
    ∃ y m n, SpellsDate text y m n ∧ fields = ⟨some y, some m, some n, none, none, none, none⟩ := by
  constructor
  · intro read
    have front := Pattern.readFront_of_readParts read
    simp only [Pattern.isoDate, Pattern.readFront] at front
    obtain ⟨⟨_, atYear⟩, yearRead, front⟩ := Option.bind_eq_some_iff.1 front
    obtain ⟨⟨_, behindYear⟩, firstHyphen, front⟩ := Option.bind_eq_some_iff.1 front
    obtain ⟨⟨_, atMonth⟩, monthRead, front⟩ := Option.bind_eq_some_iff.1 front
    obtain ⟨⟨_, behindMonth⟩, secondHyphen, front⟩ := Option.bind_eq_some_iff.1 front
    obtain ⟨⟨_, atDay⟩, dayRead, front⟩ := Option.bind_eq_some_iff.1 front
    cases front
    obtain ⟨beforeYear, year, y, rfl, blankYear, isYear, rfl⟩ := Part.exists_isYear_of_read yearRead
    obtain ⟨rfl, rfl⟩ := Part.eq_cons_of_read_mark firstHyphen
    obtain ⟨beforeMonth, month, m, rfl, blankMonth, isMonth, rfl⟩ :=
      Part.exists_numeral_of_read .month rfl (by decide) monthRead
    obtain ⟨rfl, rfl⟩ := Part.eq_cons_of_read_mark secondHyphen
    obtain ⟨beforeDay, day, n, rfl, blankDay, isDay, rfl⟩ :=
      Part.exists_numeral_of_read .day rfl (by decide) dayRead
    rw [List.append_nil]
    exact ⟨y, m, n, .intro blankYear isYear blankMonth isMonth blankDay isDay, rfl⟩
  · rintro ⟨y, m, n, spells, rfl⟩
    obtain ⟨blankYear, isYear, blankMonth, isMonth, blankDay, isDay⟩ := spells
    rename_i day
    have stops (rest : List Char) : NoDigit ('-' :: rest) := .cons rfl
    rw [← List.append_nil day]
    simp only [Pattern.isoDate, Pattern.readParts, Part.read_year blankYear isYear (stops _),
      Part.read_behind_blanks .month rfl blankMonth isMonth (stops _),
      Part.read_behind_blanks .day rfl blankDay isDay .nil, Part.read_mark, Option.bind_some,
      List.isEmpty_nil, if_true]
    rfl

theorem IsBareDate.readDate (bare : IsBareDate text d) : readDate text = some d := by
  obtain ⟨spelled, blanks, rfl, blankBack, spells⟩ := bare
  obtain ⟨blankYear, isYear, blankMonth, isMonth, blankDay, isDay⟩ := spells
  rename_i beforeYear year beforeMonth month beforeDay day
  have start := isYear.trimStart_append ('-' :: (beforeMonth ++ (month ++ '-' :: (beforeDay ++ day))))
  have last := isDay.trimEnd_append (year ++ '-' :: (beforeMonth ++ (month ++ '-' :: beforeDay)))
  simp only [List.append_assoc, List.cons_append] at last
  have trimmed := trim_between blankYear blankBack (by simp) start last
  have read := readParts_isoDate_iff.2
    ⟨_, _, _, .intro (rfl : allBlank [] = true) isYear blankMonth isMonth blankDay isDay, rfl⟩
  rw [List.nil_append] at read
  rw [Calendar.readDate, trimmed, Pattern.read, read]
  exact Date.of?_eq_some_iff.2 ⟨rfl, rfl, rfl⟩

/-- Exactly the texts that are a date alone are read as dates. -/
theorem readDate_eq_some_iff : readDate text = some d ↔ IsBareDate text d := by
  refine ⟨fun read => ?_, IsBareDate.readDate⟩
  obtain ⟨fields, parts, date⟩ := Option.bind_eq_some_iff.1 read
  obtain ⟨y, m, n, spells, rfl⟩ := readParts_isoDate_iff.1 parts
  obtain ⟨rfl, rfl, rfl⟩ := Date.of?_eq_some_iff.1 date
  obtain ⟨front, back, whole, blankFront, blankBack⟩ := exists_blanks_around text
  exact ⟨front ++ trim text, back, whole, blankBack, spells.append blankFront⟩

/-- Every pattern of timestamps begins with the one of dates and wants more behind it. -/
theorem exists_rest_of_mem_dateTimes {pattern : Pattern} (member : pattern ∈ Pattern.dateTimes) :
    ∃ rest, pattern = Pattern.isoDate ++ rest ∧ ∀ fields, Pattern.readParts rest fields [] = none := by
  simp only [Pattern.dateTimes, List.mem_cons, List.not_mem_nil, or_false] at member
  obtain rfl | rfl | rfl := member
  · exact ⟨.gap :: Pattern.clockTime ++ [.fraction], rfl, fun _ => rfl⟩
  · exact ⟨.mark 'T' :: Pattern.clockTime ++ [.fraction], rfl, fun _ => rfl⟩
  · exact ⟨.gap :: Pattern.hourMinute, rfl, fun _ => rfl⟩

/-- A text that is a date alone is read as a timestamp at midnight. -/
theorem readDateTime_of_readDate (read : readDate text = some d) :
    readDateTime text = some ⟨d, .midnight⟩ := by
  obtain ⟨fields, parts, -⟩ := Option.bind_eq_some_iff.1 read
  have front := Pattern.readFront_of_readParts parts
  have written : (Pattern.dateTimes.findSome? fun pattern =>
      (pattern.read (trim text)).bind Fields.dateTime?) = none := by
    rw [List.findSome?_eq_none_iff]
    intro pattern member
    obtain ⟨rest, rfl, wantsMore⟩ := exists_rest_of_mem_dateTimes member
    rw [Pattern.read, Pattern.readParts_append, front]
    exact congrArg (Option.bind · Fields.dateTime?) (wantsMore fields)
  rw [readDateTime, written, read]
  rfl

/-- What is read as a date first and as a timestamp otherwise has the date of the timestamp. -/
theorem readDate_or_readDateTime (text : List Char) :
    (readDate text).or ((readDateTime text).map DateTime.date) = (readDateTime text).map DateTime.date := by
  cases read : readDate text with
  | none => rfl
  | some d =>
    rw [readDateTime_of_readDate read]
    rfl

end

end PortableSql.Calendar
