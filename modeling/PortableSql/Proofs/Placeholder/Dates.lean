import PortableSql.Dialect.Basic
import PortableSql.Proofs.Calendar.Days

/-!
# Dates around a day

Which dates the calendar placeholders stand for. Where the calendar does not end around a day, every one of
them is found by the calendar itself, and none is the day for want of another: they lie around the day as
their names say. Main statement: `CalendarDates.placeholders_bracket_day`.
-/
namespace PortableSql

open Calendar Placeholder

/-! ## What is read for the built-in names -/

namespace Placeholder

namespace Registry

/-- What a registry reads a name as at a time. -/
def ReadsAs (registry : Registry) (now : DateTime) (name text : String) : Prop :=
  ∃ after, registry.resolve now name = some (text, after)

variable {registry : Registry} {literals : DateLiterals} {name : String} {rule : Date → Date}

theorem readsAs_of_clock {f : DateTime → String} (found : registry.table.get? name = some (.ofClock f))
    (now : DateTime) : registry.ReadsAs now name (f now) := by
  simp [ReadsAs, resolve, found, Value.ofClock, Value.read]

theorem ReadsAs.unique {now : DateTime} {text other : String} (first : registry.ReadsAs now name text)
    (second : registry.ReadsAs now name other) : text = other := by
  obtain ⟨after, first⟩ := first
  obtain ⟨_, second⟩ := second
  exact (Prod.mk.inj (Option.some.inj (first.symm.trans second))).1

/-- Stores values under their names, one after the other. -/
def insertAll (registry : Registry) (entries : List (String × Value)) : Registry :=
  entries.foldl (fun registry entry => registry.insert entry.1 entry.2) registry

/-- Of values that are stored under different names, each is found under its own. -/
theorem get?_insertAll {entries : List (String × Value)} (distinct : (entries.map Prod.fst).Nodup)
    {value : Value} (member : (name, value) ∈ entries) (registry : Registry) :
    (registry.insertAll entries).table.get? name = some value := by
  unfold insertAll
  induction entries using List.reverseRecOn with
  | nil => cases member
  | append_singleton entries last ih =>
    rw [List.map_append, List.nodup_append] at distinct
    rw [List.foldl_append]
    rcases List.mem_append.1 member with among | isLast
    · have different : name ≠ last.1 :=
        distinct.2.2 _ (List.mem_map_of_mem among) _ (by simp)
      exact (Table.get?_insert_of_ne _ different _).trans (ih distinct.1 among)
    · cases List.mem_singleton.1 isLast
      exact Table.get?_insert_self ..

/-- The value of a placeholder that stands for a date. -/
def dateValue (literals : DateLiterals) (rule : Date → Date) : Value :=
  .ofClock fun now => literals.dateLiteral (rule now.date)

theorem registerDates_eq : registry.registerDates literals =
    (registry.insertAll (dateRules.map fun entry => (entry.1, dateValue literals entry.2))).insert "#NOW#"
      (.ofClock literals.timestampLiteral) := by
  rw [insertAll, List.foldl_map]
  rfl

theorem get?_registerDates (member : (name, rule) ∈ dateRules) :
    (registry.registerDates literals).table.get? name = some (dateValue literals rule) := by
  have names : (dateRules.map Prod.fst).Nodup := by decide
  have different : ∀ name ∈ dateRules.map Prod.fst, name ≠ "#NOW#" := by decide
  rw [registerDates_eq]
  refine (Table.get?_insert_of_ne _ (different _ (List.mem_map_of_mem member)) _).trans ?_
  refine get?_insertAll ?_ (List.mem_map.2 ⟨_, member, rfl⟩) registry
  rw [List.map_map]
  exact names

theorem get?_registerDates_now :
    (registry.registerDates literals).table.get? "#NOW#" = some (.ofClock literals.timestampLiteral) :=
  Table.get?_insert_self ..

theorem get?_registerBooleans {yes no : String} (notTrue : name ≠ "#TRUE#") (notFalse : name ≠ "#FALSE#") :
    (registry.registerBooleans yes no).table.get? name = registry.table.get? name :=
  (Table.get?_insert_of_ne _ notFalse _).trans (Table.get?_insert_of_ne _ notTrue _)

end Registry

end Placeholder

namespace Dialect

open Placeholder

variable {name : String} {rule : Date → Date}

theorem get?_placeholders (dialect : Dialect) (member : (name, rule) ∈ dateRules) :
    dialect.placeholders.table.get? name =
      some (Registry.dateValue dialect.profile.literals rule) := by
  have different : ∀ name ∈ dateRules.map Prod.fst, name ≠ "#TRUE#" ∧ name ≠ "#FALSE#" := by decide
  obtain ⟨notTrue, notFalse⟩ := different _ (List.mem_map_of_mem member)
  exact (Registry.get?_registerBooleans notTrue notFalse).trans (Registry.get?_registerDates member)

theorem get?_placeholders_now (dialect : Dialect) :
    dialect.placeholders.table.get? "#NOW#" = some (.ofClock dialect.profile.literals.timestampLiteral) :=
  (Registry.get?_registerBooleans (by decide) (by decide)).trans Registry.get?_registerDates_now

end Dialect

/-! ## Where the dates lie -/

namespace Calendar.Date

variable {d e : Date}

theorem dayNumber_le_iff : d.dayNumber ≤ e.dayNumber ↔ ¬ e.Before d := by
  rw [← dayNumber_lt_iff, Int.not_lt]

theorem monthNumber_le (order : d.dayNumber ≤ e.dayNumber) : d.monthNumber ≤ e.monthNumber := by
  have notBefore := dayNumber_le_iff.1 order
  have := d.valid
  have := e.valid
  unfold Before at notBefore
  unfold monthNumber
  omega

/-- The next month begins behind the day. -/
theorem dayNumber_lt_nextMonth? (found : d.nextMonth? = some e) : d.dayNumber < e.dayNumber := by
  have nextMonth := (nextMonth?_eq_some_iff.1 found).1
  by_contra notBefore
  have := monthNumber_le (Int.not_lt.1 notBefore)
  omega

/-- The day before the next month begins is in the month of the day. -/
theorem monthNumber_of_lastOfMonth {first : Date} (found : d.nextMonth? = some first)
    (previous : first.previous? = some e) : e.monthNumber = d.monthNumber ∧ d.dayNumber ≤ e.dayNumber := by
  obtain ⟨nextMonth, firstDay⟩ := nextMonth?_eq_some_iff.1 found
  have before := dayNumber_lt_nextMonth? found
  have step := previous?_eq_some_iff.1 previous
  have upTo : d.dayNumber ≤ e.dayNumber := by omega
  have atLeast := monthNumber_le upTo
  have atMost : e.monthNumber ≤ first.monthNumber := monthNumber_le (by omega)
  -- no day of a month comes before its first one
  have other : e.monthNumber ≠ first.monthNumber := by
    intro same
    obtain ⟨year, month⟩ := monthNumber_eq_iff.1 same
    have earlier := dayNumber_lt_iff.1 (by omega : e.dayNumber < first.dayNumber)
    have := e.valid
    unfold Before at earlier
    omega
  omega

end Calendar.Date

/-- The dates that the calendar placeholders stand for, today apart. -/
structure CalendarDates where
  yesterday : Date
  tomorrow : Date
  firstOfMonth : Date
  lastOfMonth : Date
  firstOfYear : Date
  lastOfYear : Date

namespace CalendarDates

/-- The names of the placeholders with the dates that they stand for on a day. -/
def named (dates : CalendarDates) (d : Date) : List (String × Date) :=
  [("#TODAY#", d),
   ("#YESTERDAY#", dates.yesterday),
   ("#TOMORROW#", dates.tomorrow),
   ("#FIRSTDAYOFMONTH#", dates.firstOfMonth),
   ("#LASTDAYOFMONTH#", dates.lastOfMonth),
   ("#FIRSTDAYOFYEAR#", dates.firstOfYear),
   ("#LASTDAYOFYEAR#", dates.lastOfYear)]

/-- The calendar has the dates, and each is found from the day by its own steps. -/
structure Found (dates : CalendarDates) (d : Date) : Prop where
  yesterday : d.previous? = some dates.yesterday
  tomorrow : d.next? = some dates.tomorrow
  firstOfMonth : Date.of? d.year d.month 1 = some dates.firstOfMonth
  lastOfMonth : d.nextMonth?.bind Date.previous? = some dates.lastOfMonth
  firstOfYear : Date.of? d.year 1 1 = some dates.firstOfYear
  lastOfYear : Date.of? d.year 12 31 = some dates.lastOfYear

/-- The dates lie around a day as their names say. -/
structure Bracket (dates : CalendarDates) (d : Date) : Prop where
  yesterday : dates.yesterday.next? = some d
  tomorrow : d.next? = some dates.tomorrow
  firstOfMonth : dates.firstOfMonth.year = d.year ∧ dates.firstOfMonth.month = d.month ∧
    dates.firstOfMonth.day = 1
  lastOfMonth : dates.lastOfMonth.year = d.year ∧ dates.lastOfMonth.month = d.month ∧
    ∃ behind, dates.lastOfMonth.next? = some behind ∧ behind.day = 1 ∧
      behind.monthNumber = d.monthNumber + 1
  firstOfYear : dates.firstOfYear.year = d.year ∧ dates.firstOfYear.month = 1 ∧ dates.firstOfYear.day = 1
  lastOfYear : dates.lastOfYear.year = d.year ∧ dates.lastOfYear.month = 12 ∧ dates.lastOfYear.day = 31
  ordered : dates.firstOfYear.dayNumber ≤ dates.firstOfMonth.dayNumber ∧
    dates.firstOfMonth.dayNumber ≤ d.dayNumber ∧ d.dayNumber ≤ dates.lastOfMonth.dayNumber ∧
    dates.lastOfMonth.dayNumber ≤ dates.lastOfYear.dayNumber

variable {dates : CalendarDates} {d : Date}

theorem exists_found (before : d.previous?.isSome) (behind : d.next?.isSome)
    (later : d.nextMonth?.isSome) : ∃ dates : CalendarDates, dates.Found d := by
  obtain ⟨inside, isMonth, isDay⟩ := d.valid
  obtain ⟨yesterday, hasYesterday⟩ := Option.isSome_iff_exists.1 before
  obtain ⟨tomorrow, hasTomorrow⟩ := Option.isSome_iff_exists.1 behind
  obtain ⟨first, hasFirst⟩ := Option.isSome_iff_exists.1 later
  obtain ⟨firstOfMonth, isFirst⟩ := Date.exists_of? inside isMonth ⟨Nat.le_refl 1, daysInMonth_pos _ _⟩
  obtain ⟨lastOfMonth, isLast⟩ := Date.exists_previous?_of_before
    (Date.dayNumber_lt_iff.1 (Date.dayNumber_lt_nextMonth? hasFirst))
  obtain ⟨firstOfYear, january⟩ : ∃ first, Date.of? d.year 1 1 = some first :=
    Date.exists_of? inside (by decide) ⟨Nat.le_refl 1, daysInMonth_pos _ _⟩
  obtain ⟨lastOfYear, december⟩ : ∃ last, Date.of? d.year 12 31 = some last :=
    Date.exists_of? inside (by decide) ⟨by decide, Nat.le_refl 31⟩
  refine ⟨⟨yesterday, tomorrow, firstOfMonth, lastOfMonth, firstOfYear, lastOfYear⟩, hasYesterday,
    hasTomorrow, isFirst, ?_, january, december⟩
  rw [hasFirst, Option.bind_some, isLast]

/-- Only around a day of its first or last year can the calendar end. -/
theorem exists_found_of_year (inside : firstYear < d.year ∧ d.year < lastYear) :
    ∃ dates : CalendarDates, dates.Found d := by
  obtain ⟨-, isMonth, -⟩ := d.valid
  obtain ⟨early, isEarly⟩ : ∃ early, Date.of? (d.year - 1) 1 1 = some early :=
    Date.exists_of? (by omega) (by decide) ⟨Nat.le_refl 1, daysInMonth_pos _ _⟩
  obtain ⟨late, isLate⟩ : ∃ late, Date.of? (d.year + 1) 1 1 = some late :=
    Date.exists_of? (by omega) (by decide) ⟨Nat.le_refl 1, daysInMonth_pos _ _⟩
  have earlyYear := (Date.of?_eq_some_iff.1 isEarly).1
  have lateYear := (Date.of?_eq_some_iff.1 isLate).1
  obtain ⟨yesterday, hasYesterday⟩ := Date.exists_previous?_of_before (.inl (by omega) : early.Before d)
  obtain ⟨tomorrow, hasTomorrow⟩ := Date.exists_next?_of_before (.inl (by omega) : d.Before late)
  have later : d.nextMonth?.isSome := by
    unfold Date.nextMonth?
    split
    · obtain ⟨first, found⟩ : ∃ first, Date.of? d.year (d.month + 1) 1 = some first :=
        Date.exists_of? (by omega) (by omega) ⟨Nat.le_refl 1, daysInMonth_pos _ _⟩
      rw [found]
      rfl
    · rw [isLate]
      rfl
  exact exists_found (by simp [hasYesterday]) (by simp [hasTomorrow]) later

theorem Found.bracket (found : dates.Found d) : dates.Bracket d := by
  obtain ⟨first, hasFirst, isLast⟩ := Option.bind_eq_some_iff.1 found.lastOfMonth
  obtain ⟨nextMonth, firstDay⟩ := Date.nextMonth?_eq_some_iff.1 hasFirst
  obtain ⟨sameMonth, upTo⟩ := Date.monthNumber_of_lastOfMonth hasFirst isLast
  obtain ⟨lastYear, lastMonth⟩ := Date.monthNumber_eq_iff.1 sameMonth
  have firstOfMonth := Date.of?_eq_some_iff.1 found.firstOfMonth
  have firstOfYear := Date.of?_eq_some_iff.1 found.firstOfYear
  have lastOfYear := Date.of?_eq_some_iff.1 found.lastOfYear
  have valid := d.valid
  refine ⟨Date.previous?_eq_some_iff_next?.1 found.yesterday, found.tomorrow, firstOfMonth,
    ⟨lastYear, lastMonth, first, Date.previous?_eq_some_iff_next?.1 isLast, firstDay, nextMonth⟩,
    firstOfYear, lastOfYear, ?_, ?_, upTo, ?_⟩
  · rw [Date.dayNumber_le_iff, Date.Before]
    omega
  · rw [Date.dayNumber_le_iff, Date.Before]
    omega
  · have inMonth := dates.lastOfMonth.valid
    have short := daysInMonth_le dates.lastOfMonth.year dates.lastOfMonth.month
    rw [Date.dayNumber_le_iff, Date.Before]
    omega

/-- The dates that the placeholders stand for are at most a year away. -/
theorem Found.year_near (found : dates.Found d) {name : String} {date : Date}
    (member : (name, date) ∈ dates.named d) : d.year - 1 ≤ date.year ∧ date.year ≤ d.year + 1 := by
  have bracket := found.bracket
  have yesterday := Date.year_of_next? bracket.yesterday
  have tomorrow := Date.year_of_next? bracket.tomorrow
  have firstOfMonth := bracket.firstOfMonth.1
  have lastOfMonth := bracket.lastOfMonth.1
  have firstOfYear := bracket.firstOfYear.1
  have lastOfYear := bracket.lastOfYear.1
  simp only [named, List.mem_cons, Prod.mk.injEq, List.not_mem_nil, or_false] at member
  rcases member with ⟨-, rfl⟩ | ⟨-, rfl⟩ | ⟨-, rfl⟩ | ⟨-, rfl⟩ | ⟨-, rfl⟩ | ⟨-, rfl⟩ | ⟨-, rfl⟩ <;> omega

/-- Where the calendar has the dates, no rule falls back on the day itself. -/
theorem Found.exists_rule (found : dates.Found d) {name : String} {date : Date}
    (member : (name, date) ∈ dates.named d) : ∃ rule, (name, rule) ∈ dateRules ∧ rule d = date := by
  simp only [named, List.mem_cons, Prod.mk.injEq, List.not_mem_nil, or_false] at member
  rcases member with ⟨rfl, rfl⟩ | ⟨rfl, rfl⟩ | ⟨rfl, rfl⟩ | ⟨rfl, rfl⟩ | ⟨rfl, rfl⟩ | ⟨rfl, rfl⟩ | ⟨rfl, rfl⟩
  · exact ⟨fun d => d, by simp [dateRules], rfl⟩
  · exact ⟨Date.yesterday, by simp [dateRules], by simp [Date.yesterday, found.yesterday]⟩
  · exact ⟨Date.tomorrow, by simp [dateRules], by simp [Date.tomorrow, found.tomorrow]⟩
  · exact ⟨Date.firstOfMonth, by simp [dateRules], by simp [Date.firstOfMonth, found.firstOfMonth]⟩
  · exact ⟨Date.lastOfMonth, by simp [dateRules], by simp [Date.lastOfMonth, found.lastOfMonth]⟩
  · exact ⟨Date.firstOfYear, by simp [dateRules], by simp [Date.firstOfYear, found.firstOfYear]⟩
  · exact ⟨Date.lastOfYear, by simp [dateRules], by simp [Date.lastOfYear, found.lastOfYear]⟩

/-- Where the calendar does not end around a day, the calendar placeholders are read as literals of the
dates that lie around the day as their names say, and the calendar finds each of these dates. -/
theorem placeholders_bracket_day (now : DateTime) (before : now.date.previous?.isSome)
    (behind : now.date.next?.isSome) (later : now.date.nextMonth?.isSome) :
    ∃ dates : CalendarDates, dates.Found now.date ∧ dates.Bracket now.date ∧
      ∀ name date, (name, date) ∈ dates.named now.date →
        (∀ (registry : Registry) (literals : DateLiterals),
          (registry.registerDates literals).ReadsAs now name (literals.dateLiteral date)) ∧
        ∀ dialect : Dialect,
          dialect.placeholders.ReadsAs now name (dialect.profile.literals.dateLiteral date) := by
  obtain ⟨dates, found⟩ := exists_found before behind later
  refine ⟨dates, found, found.bracket, fun name date member => ?_⟩
  obtain ⟨rule, known, rfl⟩ := found.exists_rule member
  exact ⟨fun registry literals => Registry.readsAs_of_clock (Registry.get?_registerDates known) now,
    fun dialect => Registry.readsAs_of_clock (dialect.get?_placeholders known) now⟩

/-- The end of February in a hundredth year, on the last day of the month. -/
theorem placeholders_bracket_last_day_of_february :
    let now : DateTime := ⟨⟨2100, 2, 28, by decide⟩, .midnight⟩
    (now.date.previous?.isSome ∧ now.date.next?.isSome ∧ now.date.nextMonth?.isSome) ∧
      Dialect.postgres.placeholders.ReadsAs now "#LASTDAYOFMONTH#" "DATE '2100-02-28'" ∧
      Dialect.sqlServer.placeholders.ReadsAs now "#TOMORROW#" "'21000301'" := by
  intro now
  have inside : now.date.previous?.isSome ∧ now.date.next?.isSome ∧ now.date.nextMonth?.isSome := by
    decide
  obtain ⟨dates, found, -, reads⟩ := placeholders_bracket_day now inside.1 inside.2.1 inside.2.2
  have last : dates.lastOfMonth = now.date := Option.some.inj (found.lastOfMonth.symm.trans (by decide))
  have tomorrow : dates.tomorrow = ⟨2100, 3, 1, by decide⟩ :=
    Option.some.inj (found.tomorrow.symm.trans (by decide))
  refine ⟨inside, ?_, ?_⟩
  · have read := (reads "#LASTDAYOFMONTH#" dates.lastOfMonth (by simp [named])).2 .postgres
    have text : Dialect.postgres.profile.literals.dateLiteral now.date = "DATE '2100-02-28'" := by cbv
    rwa [last, text] at read
  · have read := (reads "#TOMORROW#" dates.tomorrow (by simp [named])).2 .sqlServer
    have text : Dialect.sqlServer.profile.literals.dateLiteral ⟨2100, 3, 1, by decide⟩ = "'21000301'" := by
      cbv
    rwa [tomorrow, text] at read

end CalendarDates

end PortableSql
