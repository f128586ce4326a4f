import PortableSql.Proofs.Calendar.BareDates
import PortableSql.Proofs.Placeholder.Dates
import PortableSql.Value.Codec

/-!
# Dates and timestamps from text

A text is a date exactly if it is a timestamp, and a date alone is the midnight of its day
(`Codec.date_iff_timestamp`). The calendar placeholders are read as literals, and what stands between the
quotes of a literal is read from a column as the date or the time that the placeholder stands for
(`Codec.calendar_literals_come_back`).
-/
namespace PortableSql

open Calendar Placeholder

/-! ## Texts in columns -/

namespace Codec

variable {codec : Codec} {s : String} {d : Date} {t : DateTime}

theorem fromDatabase_dateTime_iff :
    codec.fromDatabase (.text s) .dateTime = .ok (.dateTime t) ↔ readDateTime s.toList = some t := by
  cases read : readDateTime s.toList with
  | none => simp [fromDatabase, load, loadValue, readAs, read, StoredValue.type]
  | some found => simp [fromDatabase, load, loadValue, readAs, read, StoredValue.type]

theorem fromDatabase_date_iff : codec.fromDatabase (.text s) .date = .ok (.date d) ↔
    (readDateTime s.toList).map DateTime.date = some d := by
  rw [← readDate_or_readDateTime]
  cases read : (readDate s.toList).or ((readDateTime s.toList).map DateTime.date) with
  | none => simp [fromDatabase, load, loadValue, readAs, read, StoredValue.type]
  | some found => simp [fromDatabase, load, loadValue, readAs, read, StoredValue.type]

/-- A text is read as a date exactly if it is read as a timestamp of that date, and a text that is a date
alone is read as its midnight. -/
theorem date_iff_timestamp (codec : Codec) (s : String) (d : Date) :
    (codec.fromDatabase (.text s) .date = .ok (.date d) ↔
      ∃ t, codec.fromDatabase (.text s) .dateTime = .ok (.dateTime t) ∧ t.date = d) ∧
    (IsBareDate s.toList d →
      codec.fromDatabase (.text s) .dateTime = .ok (.dateTime ⟨d, .midnight⟩)) := by
  constructor
  · simp only [fromDatabase_date_iff, fromDatabase_dateTime_iff, Option.map_eq_some_iff]
  · intro bare
    exact fromDatabase_dateTime_iff.2 (readDateTime_of_readDate bare.readDate)

/-- A leap day with a sign, short numbers, and blanks around it and inside. -/
theorem date_iff_timestamp_of_leap_day :
    let codec : Codec := ⟨.text, .unbounded⟩
    let leapDay : Date := ⟨2024, 2, 29, by decide⟩
    IsBareDate "\t+02024- 2-29 ".toList leapDay ∧
      codec.fromDatabase (.text "\t+02024- 2-29 ") .date = .ok (.date leapDay) ∧
      codec.fromDatabase (.text "\t+02024- 2-29 ") .dateTime = .ok (.dateTime ⟨leapDay, .midnight⟩) := by
  intro codec leapDay
  have bare : IsBareDate "\t+02024- 2-29 ".toList leapDay := readDate_eq_some_iff.1 (by decide +kernel)
  obtain ⟨sameDate, midnight⟩ := date_iff_timestamp codec "\t+02024- 2-29 " leapDay
  exact ⟨bare, sameDate.2 ⟨_, midnight bare, rfl⟩, midnight bare⟩

end Codec

/-! ## Literals -/

/-- The text between the first quote of a text and the next one. -/
def betweenQuotes (text : String) : String :=
  String.ofList (((text.toList.dropWhile (· ≠ '\'')).drop 1).takeWhile (· ≠ '\''))

theorem betweenQuotes_literal {word body : String} (plainWord : '\'' ∉ word.toList)
    (plainBody : '\'' ∉ body.toList) : betweenQuotes (word ++ "'" ++ body ++ "'") = body := by
  have inWord : ∀ c ∈ word.toList, decide (c ≠ '\'') = true := fun c member =>
    decide_eq_true (ne_of_mem_of_not_mem member plainWord)
  have inBody : ∀ c ∈ body.toList, decide (c ≠ '\'') = true := fun c member =>
    decide_eq_true (ne_of_mem_of_not_mem member plainBody)
  have shape : (word ++ "'" ++ body ++ "'").toList = word.toList ++ '\'' :: (body.toList ++ ['\'']) := by
    simp
  rw [betweenQuotes, shape, List.dropWhile_append_of_pos inWord, List.dropWhile_cons_of_neg (by decide),
    List.drop_one, List.tail_cons, List.takeWhile_append_of_pos inBody, List.takeWhile_cons_of_neg (by decide),
    List.append_nil, String.ofList_toList]

namespace Dialect

theorem quote_not_mem_words (dialect : Dialect) : '\'' ∉ dialect.profile.literals.dateWord.toList ∧
    '\'' ∉ dialect.profile.literals.timestampWord.toList := by
  cases dialect <;> decide

/-- Every engine writes timestamps in one of two patterns. -/
theorem exists_timestamp_eq (dialect : Dialect) : ∃ separator, (separator = .gap ∨ separator = .mark 'T') ∧
    dialect.profile.literals.timestamp = .timestamp separator := by
  cases dialect with
  | postgres | mySql | sqlite => exact ⟨.gap, .inl rfl, rfl⟩
  | sqlServer => exact ⟨.mark 'T', .inr rfl, rfl⟩

/-- All engines but one write dates with hyphens. -/
theorem date_eq_isoDate {dialect : Dialect} (other : dialect ≠ .sqlServer) :
    dialect.profile.literals.date = Pattern.isoDate := by
  cases dialect with
  | postgres | mySql | sqlite => rfl
  | sqlServer => exact absurd rfl other

end Dialect

namespace Codec

variable {dialect : Dialect}

theorem fromDatabase_timestampLiteral (codec : Codec) (dialect : Dialect) {t : DateTime}
    (inside : 0 ≤ t.date.year ∧ t.date.year ≤ 9999) (noLeap : t.time.nanosecond < nanosecondsPerSecond) :
    codec.fromDatabase (.text (betweenQuotes (dialect.profile.literals.timestampLiteral t))) .dateTime =
      .ok (.dateTime t.wholeSecond) := by
  obtain ⟨separator, known, pattern⟩ := dialect.exists_timestamp_eq
  have noQuote : .mark '\'' ∉ Pattern.timestamp separator := by
    obtain rfl | rfl := known <;> decide
  rw [fromDatabase_dateTime_iff, DateLiterals.timestampLiteral, pattern,
    betweenQuotes_literal dialect.quote_not_mem_words.2 (quote_not_mem_print noQuote t)]
  exact readDateTime_print known inside noLeap

theorem fromDatabase_dateLiteral (codec : Codec) (other : dialect ≠ .sqlServer) {d : Date}
    (inside : 0 ≤ d.year ∧ d.year ≤ 9999) :
    codec.fromDatabase (.text (betweenQuotes (dialect.profile.literals.dateLiteral d))) .date =
      .ok (.date d) := by
  have read := readDate_print (t := ⟨d, .midnight⟩) inside
  rw [fromDatabase_date_iff, DateLiterals.dateLiteral, Dialect.date_eq_isoDate other,
    betweenQuotes_literal dialect.quote_not_mem_words.1 (quote_not_mem_print (by decide) _),
    readDateTime_of_readDate read]
  rfl

end Codec

/-- A reading of the clock in a year of four digits, with room for the years around it, and in no leap
second. -/
structure Calendar.DateTime.IsOrdinary (now : DateTime) : Prop where
  year : 1 ≤ now.date.year ∧ now.date.year ≤ 9998
  noLeap : now.time.nanosecond < nanosecondsPerSecond

namespace Codec

theorem timestampLiteral_injective (dialect : Dialect) {now later : DateTime} (ordinary : now.IsOrdinary)
    (ordinaryLater : later.IsOrdinary)
    (same : dialect.profile.literals.timestampLiteral now = dialect.profile.literals.timestampLiteral later) :
    now.wholeSecond = later.wholeSecond := by
  have codec : Codec := ⟨.native, .unbounded⟩
  have years := ordinary.year
  have yearsLater := ordinaryLater.year
  have back := codec.fromDatabase_timestampLiteral dialect (t := now) (by omega) ordinary.noLeap
  have backLater := codec.fromDatabase_timestampLiteral dialect (t := later) (by omega) ordinaryLater.noLeap
  rw [same, backLater] at back
  exact (Value.dateTime.inj (Except.ok.inj back)).symm

/-- What the calendar placeholders are read as comes back from a column: the present time in whole seconds,
on every engine, and the dates on the engines that write them with hyphens. -/
theorem calendar_literals_come_back (codec : Codec) (dialect : Dialect) {now : DateTime}
    (ordinary : now.IsOrdinary) :
    (∃ literal, dialect.placeholders.ReadsAs now "#NOW#" literal ∧
      codec.fromDatabase (.text (betweenQuotes literal)) .dateTime = .ok (.dateTime now.wholeSecond)) ∧
    (dialect ≠ .sqlServer → ∃ dates : CalendarDates, dates.Found now.date ∧
      ∀ name date, (name, date) ∈ dates.named now.date →
        ∃ literal, dialect.placeholders.ReadsAs now name literal ∧
          codec.fromDatabase (.text (betweenQuotes literal)) .date = .ok (.date date)) ∧
    ∀ (later : DateTime) (literal : String), later.IsOrdinary →
      dialect.placeholders.ReadsAs now "#NOW#" literal →
        dialect.placeholders.ReadsAs later "#NOW#" literal → now.wholeSecond = later.wholeSecond := by
  have years := ordinary.year
  have reads := Registry.readsAs_of_clock dialect.get?_placeholders_now
  refine ⟨⟨_, reads now, codec.fromDatabase_timestampLiteral dialect (by omega) ordinary.noLeap⟩,
    fun other => ?_, fun later literal ordinaryLater readNow readLater => ?_⟩
  · have inside : firstYear < now.date.year ∧ now.date.year < lastYear := by
      unfold firstYear lastYear
      omega
    obtain ⟨dates, found⟩ := CalendarDates.exists_found_of_year inside
    refine ⟨dates, found, fun name date member => ?_⟩
    have near := found.year_near member
    obtain ⟨rule, known, rfl⟩ := found.exists_rule member
    exact ⟨_, Registry.readsAs_of_clock (dialect.get?_placeholders known) now,
      codec.fromDatabase_dateLiteral other (by omega)⟩
  · have same := ((reads now).unique readNow).trans (readLater.unique (reads later))
    exact timestampLiteral_injective dialect ordinary ordinaryLater same

/-- Two readings of the clock in the last second before the year 9999. -/
theorem calendar_literals_come_back_in_last_second :
    let now : DateTime := ⟨⟨9998, 12, 31, by decide⟩, ⟨23, 59, 59, 250000000, by decide⟩⟩
    let later : DateTime := ⟨⟨9998, 12, 31, by decide⟩, ⟨23, 59, 59, 750000000, by decide⟩⟩
    let codec : Codec := ⟨.native, .unbounded⟩
    (now.IsOrdinary ∧ later.IsOrdinary ∧ Dialect.mySql ≠ .sqlServer) ∧
      (Dialect.sqlServer.placeholders.ReadsAs now "#NOW#" "'9998-12-31T23:59:59'" ∧
        codec.fromDatabase (.text "9998-12-31T23:59:59") .dateTime = .ok (.dateTime now.wholeSecond)) ∧
      (∃ literal, Dialect.mySql.placeholders.ReadsAs now "#TOMORROW#" literal ∧
        codec.fromDatabase (.text (betweenQuotes literal)) .date =
          .ok (.date ⟨9999, 1, 1, by decide⟩)) ∧
      now.wholeSecond = later.wholeSecond := by
  intro now later codec
  have ordinary : now.IsOrdinary := ⟨by decide, by decide⟩
  have ordinaryLater : later.IsOrdinary := ⟨by decide, by decide⟩
  have reads : Dialect.sqlServer.placeholders.ReadsAs now "#NOW#" "'9998-12-31T23:59:59'" := by
    have read := Registry.readsAs_of_clock Dialect.sqlServer.get?_placeholders_now now
    have text : Dialect.sqlServer.profile.literals.timestampLiteral now = "'9998-12-31T23:59:59'" := by cbv
    rwa [text] at read
  have readsLater : Dialect.sqlServer.placeholders.ReadsAs later "#NOW#" "'9998-12-31T23:59:59'" := by
    have read := Registry.readsAs_of_clock Dialect.sqlServer.get?_placeholders_now later
    have text : Dialect.sqlServer.profile.literals.timestampLiteral later = "'9998-12-31T23:59:59'" := by cbv
    rwa [text] at read
  obtain ⟨⟨literal, readNow, back⟩, -, distinct⟩ :=
    calendar_literals_come_back codec .sqlServer ordinary
  obtain ⟨-, fromDates, -⟩ := calendar_literals_come_back codec .mySql ordinary
  obtain ⟨dates, found, comesBack⟩ := fromDates (by decide)
  have tomorrow : dates.tomorrow = ⟨9999, 1, 1, by decide⟩ :=
    Option.some.inj (found.tomorrow.symm.trans (by decide))
  have between : betweenQuotes "'9998-12-31T23:59:59'" = "9998-12-31T23:59:59" := by cbv
  rw [readNow.unique reads, between] at back
  refine ⟨⟨ordinary, ordinaryLater, by decide⟩, ⟨reads, back⟩, ?_,
    distinct later _ ordinaryLater reads readsLater⟩
  rw [← tomorrow]
  exact comesBack "#TOMORROW#" dates.tomorrow (by simp [CalendarDates.named])

end Codec

end PortableSql
