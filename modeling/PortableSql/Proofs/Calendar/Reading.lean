import PortableSql.Proofs.Calendar.Days
import PortableSql.Proofs.Calendar.Printing

/-!
# Dates and times as text

What a pattern prints, the pattern reads again, wherever no number runs into the next one
(`Pattern.readFront_print`). So a printed date is read as the date (`readDate_print`), and a printed timestamp
as the timestamp in whole seconds (`readDateTime_print`).
-/
namespace PortableSql.Calendar

open Text

/-! ## Numerals -/

/-- A text does not begin with a digit. -/
def NoDigit (text : List Char) : Prop :=
  ∀ c, text.head? = some c → isDigit c = false

section
variable {width n : Nat} {digits text rest : List Char}

theorem NoDigit.nil : NoDigit [] := nofun

theorem NoDigit.cons {c : Char} (other : isDigit c = false) : NoDigit (c :: rest) :=
  fun _ same => Option.some.inj same ▸ other

theorem NoDigit.takeWhile_take (stops : NoDigit rest) (count : Nat) :
    (rest.take count).takeWhile isDigit = [] := by
  cases rest with
  | nil => simp
  | cons c rest =>
    cases count with
    | zero => rfl
    | succ count => simp [stops c rfl]

theorem readDigits_numeral (numeral : IsNumeral width digits n) (stops : NoDigit rest) :
    readDigits width (digits ++ rest) = some (n, rest) := by
  have taken : ((digits ++ rest).take width).takeWhile isDigit = digits := by
    rw [List.take_append, List.take_of_length_le numeral.short,
      List.takeWhile_append_of_pos numeral.inside, stops.takeWhile_take, List.append_nil]
  simp [readDigits, taken, numeral.nonempty, numeral.decimalValue_eq]

theorem exists_numeral_of_readDigits (read : readDigits width text = some (n, rest)) :
    ∃ digits, text = digits ++ rest ∧ IsNumeral width digits n := by
  unfold readDigits at read
  dsimp only at read
  split at read
  · cases read
  · rename_i nonempty
    have front := (List.takeWhile_prefix isDigit).trans (List.take_prefix width text)
    simp only [Option.some.injEq, Prod.mk.injEq] at read
    refine ⟨_, ?_, by simpa using nonempty, ?_, fun c => List.mem_takeWhile_imp, read.1⟩
    · rw [← read.2]
      exact (List.prefix_iff_eq_append.1 front).symm
    · exact (List.takeWhile_prefix isDigit).length_le.trans (List.length_take_le _ _)

/-- A year as text: four digits at most, or a sign and any number of digits. -/
inductive IsYear : List Char → Int → Prop
  | short {digits : List Char} {n : Nat} (numeral : IsNumeral 4 digits n) : IsYear digits n
  | plus {digits : List Char} {n : Nat} (numeral : IsNumeral digits.length digits n) :
      IsYear ('+' :: digits) n
  | minus {digits : List Char} {n : Nat} (numeral : IsNumeral digits.length digits n) :
      IsYear ('-' :: digits) (-n)

variable {year : Int}

theorem readAllDigits_numeral (numeral : IsNumeral digits.length digits n) (stops : NoDigit rest) :
    readAllDigits (digits ++ rest) = some (n, rest) :=
  readDigits_numeral { numeral with short := by simp } stops

theorem readYear_of_isYear (isYear : IsYear text year) (stops : NoDigit rest) :
    readYear (text ++ rest) = some (year, rest) := by
  cases isYear with
  | short numeral =>
    obtain ⟨c, later, rfl, digit⟩ := numeral.exists_head
    have read := readDigits_numeral numeral stops
    rw [List.cons_append] at read ⊢
    unfold readYear
    -- a digit is neither of the signs
    split
    · rename_i same
      cases (List.cons.inj same).1
      cases digit
    · rename_i same
      cases (List.cons.inj same).1
      cases digit
    · rw [read]
      rfl
  | plus numeral => simp [readYear, readAllDigits_numeral numeral stops]
  | minus numeral => simp [readYear, readAllDigits_numeral numeral stops]

theorem exists_numeral_of_readAllDigits (read : readAllDigits text = some (n, rest)) :
    ∃ digits, text = digits ++ rest ∧ IsNumeral digits.length digits n := by
  obtain ⟨digits, whole, numeral⟩ := exists_numeral_of_readDigits read
  exact ⟨digits, whole, { numeral with short := Nat.le_refl _ }⟩

theorem exists_isYear_of_readYear (read : readYear text = some (year, rest)) :
    ∃ front, text = front ++ rest ∧ IsYear front year := by
  unfold readYear at read
  split at read
  · obtain ⟨⟨n, behind⟩, found, same⟩ := Option.map_eq_some_iff.1 read
    cases same
    obtain ⟨digits, rfl, numeral⟩ := exists_numeral_of_readAllDigits found
    exact ⟨_, rfl, .plus numeral⟩
  · obtain ⟨⟨n, behind⟩, found, same⟩ := Option.map_eq_some_iff.1 read
    cases same
    obtain ⟨digits, rfl, numeral⟩ := exists_numeral_of_readAllDigits found
    exact ⟨_, rfl, .minus numeral⟩
  · obtain ⟨⟨n, behind⟩, found, same⟩ := Option.map_eq_some_iff.1 read
    cases same
    obtain ⟨digits, rfl, numeral⟩ := exists_numeral_of_readDigits found
    exact ⟨_, rfl, .short numeral⟩

end

/-! ## Patterns -/

namespace Part

def isNumber : Part → Bool
  | .year | .month | .day | .hour | .minute | .second => true
  | .fraction | .gap | .mark _ => false

/-- How many digits the numeral of a part has. -/
def width : Part → Nat
  | .year => 4
  | _ => 2

/-- The number that a part prints. -/
def value (t : DateTime) : Part → Nat
  | .year => t.date.year.toNat
  | .month => t.date.month
  | .day => t.date.day
  | .hour => t.time.hour
  | .minute => t.time.minute
  | .second => t.time.shownSecond
  | _ => 0

/-- The fields with the number of a part. -/
def put (fields : Fields) (n : Nat) : Part → Fields
  | .year => { fields with year := some n }
  | .month => { fields with month := some n }
  | .day => { fields with day := some n }
  | .hour => { fields with hour := some n }
  | .minute => { fields with minute := some n }
  | .second => { fields with second := some n }
  | _ => fields

/-- What a part prints ends where a text goes on in this way. -/
def EndsBefore (part : Part) (rest : List Char) : Prop :=
  match part with
  | .fraction => False
  | .gap => trimStart rest = rest
  | .mark _ => True
  | _ => NoDigit rest

/-- Whether what a part prints ends at the end of a text. -/
def endsText : Part → Bool
  | .fraction | .gap => false
  | _ => true

/-- Whether what a part prints ends where another part begins. -/
def endsAt (part next : Part) : Bool :=
  match part, next with
  | .fraction, _ => false
  | .gap, next => next.isNumber
  | .mark _, _ => true
  | _, .gap => true
  | _, .mark c => !isDigit c
  | _, _ => false

variable {part next : Part} {t : DateTime} {n : Nat} {digits rest : List Char} {fields : Fields}

theorem print_eq_padded (number : part.isNumber = true)
    (inside : 0 ≤ t.date.year ∧ t.date.year ≤ 9999) :
    part.print t = padded part.width (part.value t) := by
  cases part with
  | year => exact if_pos inside
  | month | day | hour | minute | second => rfl
  | fraction | gap | mark => cases number

theorem value_lt (number : part.isNumber = true) (inside : 0 ≤ t.date.year ∧ t.date.year ≤ 9999) :
    part.value t < 10 ^ part.width := by
  obtain ⟨-, isMonth, isDay⟩ := t.date.valid
  have shortMonth := daysInMonth_le t.date.year t.date.month
  have time := t.time.valid
  unfold nanosecondsPerSecond at time
  cases part with
  | year =>
    change t.date.year.toNat < 10000
    omega
  | month =>
    change t.date.month < 100
    omega
  | day =>
    change t.date.day < 100
    omega
  | hour =>
    change t.time.hour < 100
    omega
  | minute =>
    change t.time.minute < 100
    omega
  | second =>
    change t.time.second + t.time.nanosecond / 1000000000 < 100
    omega
  | fraction | gap | mark => cases number

theorem isNumeral_print (number : part.isNumber = true) (inside : 0 ≤ t.date.year ∧ t.date.year ≤ 9999) :
    IsNumeral part.width (part.print t) (part.value t) := by
  have positive : 0 < part.width := by unfold width; split <;> decide
  rw [print_eq_padded number inside]
  exact isNumeral_padded (value_lt number inside) positive

theorem read_numeral (part : Part) (number : part.isNumber = true)
    (numeral : IsNumeral part.width digits n) (stops : NoDigit rest) :
    part.read fields (digits ++ rest) = some (part.put fields n, rest) := by
  cases part with
  | year =>
    have read := readYear_of_isYear (.short numeral) stops
    simp [read, Part.read, numeral.trimStart_append, put]
  | month | day | hour | minute | second =>
    have read := readDigits_numeral numeral stops
    simp only [width] at read
    simp [read, Part.read, numeral.trimStart_append, put]
  | fraction | gap | mark => cases number

/-- A part reads what it has printed. -/
theorem read_print (ends : part.EndsBefore rest) (inside : 0 ≤ t.date.year ∧ t.date.year ≤ 9999) :
    part.read fields (part.print t ++ rest) = some (part.put fields (part.value t), rest) := by
  cases part with
  | fraction => cases ends
  | gap =>
    change some (fields, trimStart (' ' :: rest)) = some (fields, rest)
    rw [trimStart, List.dropWhile_cons_of_pos (by rfl)]
    exact congrArg (fun rest => some (fields, rest)) ends
  | mark c => simp [Part.read, print, put]
  | year | month | day | hour | minute | second =>
    exact read_numeral _ rfl (isNumeral_print rfl inside) ends

end Part

namespace Pattern

/-- Reads the parts of a pattern at the beginning of a text, and gives what is left of the text. -/
def readFront (fields : Fields) (text : List Char) : Pattern → Option (Fields × List Char)
  | [] => some (fields, text)
  | part :: rest => (part.read fields text).bind fun (fields, text) => readFront fields text rest

theorem readParts_append (front back : Pattern) (fields : Fields) (text : List Char) :
    readParts (front ++ back) fields text =
      (front.readFront fields text).bind fun (fields, text) => back.readParts fields text := by
  induction front generalizing fields text with
  | nil => rfl
  | cons part front ih =>
    simp only [List.cons_append, readParts, readFront, ih, Option.bind_assoc]

theorem readParts_eq (pattern : Pattern) (fields : Fields) (text : List Char) :
    pattern.readParts fields text = (pattern.readFront fields text).bind fun (fields, text) =>
      if text.isEmpty then some fields else none := by
  have split := readParts_append pattern [] fields text
  rwa [List.append_nil] at split

/-- Where a pattern reads a whole text, nothing is left for more parts. -/
theorem readFront_of_readParts {pattern : Pattern} {fields result : Fields} {text : List Char}
    (read : pattern.readParts fields text = some result) :
    pattern.readFront fields text = some (result, []) := by
  rw [readParts_eq] at read
  obtain ⟨⟨found, rest⟩, front, ends⟩ := Option.bind_eq_some_iff.1 read
  cases rest with
  | nil =>
    cases ends
    exact front
  | cons => cases ends

/-- No number of a pattern runs into what is printed behind it. -/
def isDelimited : Pattern → Bool
  | [] => true
  | [last] => last.endsText
  | part :: next :: rest => part.endsAt next && isDelimited (next :: rest)

/-- The fields with the numbers that a pattern prints. -/
def putAll (t : DateTime) (fields : Fields) (pattern : Pattern) : Fields :=
  pattern.foldl (fun fields part => part.put fields (part.value t)) fields

variable {t : DateTime} {rest : List Char}

theorem endsBefore_print {part next : Part} (ends : part.endsAt next = true)
    (inside : 0 ≤ t.date.year ∧ t.date.year ≤ 9999) : part.EndsBefore (next.print t ++ rest) := by
  cases part with
  | fraction => cases ends
  | gap => exact (Part.isNumeral_print ends inside).trimStart_append rest
  | mark => trivial
  | year | month | day | hour | minute | second =>
    cases next with
    | gap => exact .cons rfl
    | mark c => exact .cons (by simpa [Part.endsAt] using ends)
    | _ => cases ends

/-- A pattern reads what it has printed. -/
theorem readFront_print (pattern : Pattern) (delimited : pattern.isDelimited = true)
    (inside : 0 ≤ t.date.year ∧ t.date.year ≤ 9999) (stops : NoDigit rest) (fields : Fields) :
    pattern.readFront fields (pattern.flatMap (Part.print t) ++ rest) =
      some (pattern.putAll t fields, rest) := by
  induction pattern generalizing fields with
  | nil => rfl
  | cons part later ih =>
    -- the part ends where the next one begins, or where the text goes on behind the pattern
    have ends : part.EndsBefore (later.flatMap (Part.print t) ++ rest) := by
      cases later with
      | nil =>
        cases part with
        | fraction | gap => cases delimited
        | mark => trivial
        | year | month | day | hour | minute | second => exact stops
      | cons next later =>
        rw [List.flatMap_cons, List.append_assoc]
        exact endsBefore_print (Bool.and_eq_true_iff.1 delimited).1 inside
    have others : isDelimited later = true := by
      cases later with
      | nil => rfl
      | cons next later => exact (Bool.and_eq_true_iff.1 delimited).2
    rw [List.flatMap_cons, List.append_assoc, readFront, Part.read_print ends inside, Option.bind_some]
    exact ih others _

/-- A pattern that begins and ends with numbers prints no blanks at its ends. -/
theorem trim_print {pattern : Pattern} (starts : pattern.head?.any Part.isNumber = true)
    (ends : pattern.getLast?.any Part.isNumber = true) (inside : 0 ≤ t.date.year ∧ t.date.year ≤ 9999) :
    trim (pattern.flatMap (Part.print t)) = pattern.flatMap (Part.print t) := by
  obtain ⟨first, isFirst, firstNumber⟩ := (Option.any_eq_true _ _).1 starts
  obtain ⟨last, isLast, lastNumber⟩ := (Option.any_eq_true _ _).1 ends
  obtain ⟨later, front⟩ := List.head?_eq_some_iff.1 isFirst
  obtain ⟨earlier, back⟩ := List.getLast?_eq_some_iff.1 isLast
  have start : trimStart (pattern.flatMap (Part.print t)) = pattern.flatMap (Part.print t) := by
    rw [front, List.flatMap_cons]
    exact (Part.isNumeral_print firstNumber inside).trimStart_append _
  rw [trim, start, back, List.flatMap_append, List.flatMap_singleton]
  exact (Part.isNumeral_print lastNumber inside).trimEnd_append _

/-- Where two patterns begin alike, the one reads the common front of what the other has printed. -/
theorem read_print_append (front printed read : Pattern) (delimited : front.isDelimited = true)
    (starts : (front ++ printed).head?.any Part.isNumber = true)
    (ends : (front ++ printed).getLast?.any Part.isNumber = true)
    (stops : NoDigit (printed.flatMap (Part.print t))) (inside : 0 ≤ t.date.year ∧ t.date.year ≤ 9999) :
    (front ++ read).read (trim ((front ++ printed).print t).toList) =
      read.readParts (front.putAll t .none) (printed.flatMap (Part.print t)) := by
  have common := front.readFront_print delimited inside stops .none
  rw [print, String.toList_ofList, trim_print starts ends inside, Pattern.read, readParts_append,
    List.flatMap_append, common, Option.bind_some]

/-- A pattern reads what it has printed, also with parts behind it that may be empty. -/
theorem read_print (pattern back : Pattern) (delimited : pattern.isDelimited = true)
    (starts : pattern.head?.any Part.isNumber = true) (ends : pattern.getLast?.any Part.isNumber = true)
    (inside : 0 ≤ t.date.year ∧ t.date.year ≤ 9999) :
    (pattern ++ back).read (trim (pattern.print t).toList) =
      back.readParts (pattern.putAll t .none) [] := by
  have whole := pattern.append_nil
  have read := read_print_append (t := t) pattern [] back delimited
    (whole.symm ▸ starts) (whole.symm ▸ ends) .nil inside
  rwa [whole] at read

end Pattern

/-! ## Printed dates and timestamps -/

/-- A timestamp without the parts of its second. -/
def DateTime.wholeSecond (t : DateTime) : DateTime where
  date := t.date
  time := {
    hour := t.time.hour
    minute := t.time.minute
    second := t.time.second
    nanosecond := 0
    valid := by
      have := t.time.valid
      unfold nanosecondsPerSecond at this ⊢
      omega }

namespace Pattern

/-- A date and a time of day with a separator between them. -/
def timestamp (separator : Part) : Pattern :=
  isoDate ++ [separator] ++ clockTime

theorem dateTimes_eq : dateTimes =
    [timestamp .gap ++ [.fraction], timestamp (.mark 'T') ++ [.fraction], isoDate ++ [.gap] ++ hourMinute] :=
  rfl

end Pattern

namespace Fields

variable {t : DateTime} {fields : Fields}

theorem date?_eq (year : fields.year = some (t.date.year.toNat : Int))
    (month : fields.month = some t.date.month) (day : fields.day = some t.date.day)
    (nonneg : 0 ≤ t.date.year) : fields.date? = some t.date := by
  have valid : Date.of? t.date.year t.date.month t.date.day = some t.date :=
    Date.of?_eq_some_iff.2 ⟨rfl, rfl, rfl⟩
  simp [date?, year, month, day, Int.toNat_of_nonneg nonneg, valid]

theorem time?_eq (hour : fields.hour = some t.time.hour) (minute : fields.minute = some t.time.minute)
    (second : fields.second = some t.time.shownSecond) (nanosecond : fields.nanosecond = Option.none)
    (noLeap : t.time.nanosecond < nanosecondsPerSecond) : fields.time? = some t.wholeSecond.time := by
  have shown : t.time.shownSecond = t.time.second := by
    rw [Time.shownSecond, Nat.div_eq_of_lt noLeap, Nat.add_zero]
  have notSixty : t.time.second ≠ 60 := by
    have := t.time.valid
    omega
  have valid : Time.of? t.time.hour t.time.minute t.time.second 0 = some t.wholeSecond.time :=
    dif_pos t.wholeSecond.time.valid
  simp [time?, hour, minute, second, nanosecond, shown, notSixty, valid]

end Fields

section
variable {t : DateTime} {separator : Part}

/-- A printed date is read as the date. -/
theorem readDate_print (inside : 0 ≤ t.date.year ∧ t.date.year ≤ 9999) :
    readDate (Pattern.isoDate.print t).toList = some t.date := by
  have read := Pattern.read_print .isoDate [] rfl rfl rfl inside
  rw [List.append_nil] at read
  rw [readDate, read]
  exact Fields.date?_eq rfl rfl rfl inside.1

theorem dateTime?_putAll (known : separator = .gap ∨ separator = .mark 'T') (nonneg : 0 ≤ t.date.year)
    (noLeap : t.time.nanosecond < nanosecondsPerSecond) :
    ((Pattern.timestamp separator).putAll t .none).dateTime? = some t.wholeSecond := by
  obtain ⟨date, time⟩ : ((Pattern.timestamp separator).putAll t .none).date? = some t.date ∧
      ((Pattern.timestamp separator).putAll t .none).time? = some t.wholeSecond.time := by
    obtain rfl | rfl := known <;>
      exact ⟨Fields.date?_eq rfl rfl rfl nonneg, Fields.time?_eq rfl rfl rfl rfl noLeap⟩
  simp [Fields.dateTime?, date, time, DateTime.wholeSecond]

/-- A pattern with blanks behind the date does not read a timestamp with a letter there. -/
theorem read_gap_print_mark (inside : 0 ≤ t.date.year ∧ t.date.year ≤ 9999) :
    (Pattern.timestamp .gap ++ [Part.fraction]).read
      (trim ((Pattern.timestamp (.mark 'T')).print t).toList) = none := by
  have common := Pattern.read_print_append .isoDate (.mark 'T' :: Pattern.clockTime)
    (.gap :: Pattern.clockTime ++ [.fraction]) rfl rfl rfl (.cons rfl) inside
  refine Eq.trans common ?_
  rw [List.flatMap_cons]
  generalize Pattern.clockTime.flatMap (Part.print t) = clock
  rfl

/-- A printed timestamp is read as the timestamp without the parts of its second. -/
theorem readDateTime_print (known : separator = .gap ∨ separator = .mark 'T')
    (inside : 0 ≤ t.date.year ∧ t.date.year ≤ 9999) (noLeap : t.time.nanosecond < nanosecondsPerSecond) :
    readDateTime ((Pattern.timestamp separator).print t).toList = some t.wholeSecond := by
  have read : ((Pattern.timestamp separator ++ [Part.fraction]).read
      (trim ((Pattern.timestamp separator).print t).toList)).bind Fields.dateTime? = some t.wholeSecond := by
    rw [← dateTime?_putAll known inside.1 noLeap]
    obtain rfl | rfl := known <;>
      exact congrArg (Option.bind · Fields.dateTime?) (Pattern.read_print _ [.fraction] rfl rfl rfl inside)
  have written : (Pattern.dateTimes.findSome? fun pattern =>
      (pattern.read (trim ((Pattern.timestamp separator).print t).toList)).bind Fields.dateTime?) =
        some t.wholeSecond := by
    obtain rfl | rfl := known
    · rw [Pattern.dateTimes_eq, List.findSome?_cons, read]
    · rw [Pattern.dateTimes_eq, List.findSome?_cons, read_gap_print_mark inside, Option.bind_none,
        List.findSome?_cons, read]
  rw [readDateTime, written]
  rfl

end

end PortableSql.Calendar
