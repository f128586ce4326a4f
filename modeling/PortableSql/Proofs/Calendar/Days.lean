import Mathlib.Algebra.BigOperators.Intervals
import Mathlib.Algebra.Order.Group.Unbundled.Int
import Mathlib.Tactic
import PortableSql.Calendar.Basic

/-!
# Counted days

Every day has a number, counted without gaps across the ends of months and years, and so has every month.
Which day comes next, which came before and with which day the next month begins is said by these numbers
(`Date.next?_eq_some_iff`, `Date.previous?_eq_some_iff`, `Date.nextMonth?_eq_some_iff`), and the numbers
order days by year, month and day of the month (`Date.dayNumber_lt_iff`).
-/
namespace PortableSql.Calendar

/-! ## Lengths of months and years -/

def daysInYear (year : Int) : Nat :=
  if isLeapYear year then 366 else 365

/-- The days of a year before one of its months. -/
def daysBeforeMonth (year : Int) (month : Nat) : Nat :=
  ∑ earlier ∈ Finset.Ico 1 month, daysInMonth year earlier

/-- The days from the year 0 on before a year: one more in every fourth year, but for the hundredth years
that are no four hundredth ones. -/
def daysBeforeYear (year : Int) : Int :=
  365 * year + ((year + 3) / 4 - (year + 99) / 100 + (year + 399) / 400)

theorem daysInMonth_pos (year : Int) (month : Nat) : 0 < daysInMonth year month := by
  unfold daysInMonth
  split
  · split <;> decide
  all_goals decide

theorem daysInMonth_le (year : Int) (month : Nat) : daysInMonth year month ≤ 31 := by
  unfold daysInMonth
  split
  · split <;> decide
  all_goals decide

theorem daysBeforeMonth_one (year : Int) : daysBeforeMonth year 1 = 0 := rfl

theorem daysBeforeMonth_succ (year : Int) {month : Nat} (first : 1 ≤ month) :
    daysBeforeMonth year (month + 1) = daysBeforeMonth year month + daysInMonth year month :=
  Finset.sum_Ico_succ_top first _

theorem daysBeforeMonth_mono (year : Int) {month later : Nat} (order : month ≤ later) :
    daysBeforeMonth year month ≤ daysBeforeMonth year later :=
  Finset.sum_le_sum_of_subset (Finset.Ico_subset_Ico_right order)

/-- The twelve months make up the year. -/
theorem daysBeforeMonth_thirteen (year : Int) : daysBeforeMonth year 13 = daysInYear year := by
  cases leap : isLeapYear year <;>
    simp [daysBeforeMonth, daysInYear, daysInMonth, leap, Finset.sum_Ico_succ_top]

theorem daysBeforeYear_succ (year : Int) :
    daysBeforeYear (year + 1) = daysBeforeYear year + daysInYear year := by
  simp only [daysBeforeYear, daysInYear, isLeapYear, Bool.and_eq_true, Bool.or_eq_true, beq_iff_eq,
    bne_iff_ne]
  split <;> omega

theorem daysBeforeYear_strictMono : StrictMono daysBeforeYear := by
  apply strictMono_int_of_lt_succ
  intro year
  rw [daysBeforeYear_succ]
  unfold daysInYear
  split <;> omega

namespace Date

/-! ## Numbers of days and months -/

/-- The place of a day in its year, from 1 on. -/
def dayOfYear (d : Date) : Nat :=
  daysBeforeMonth d.year d.month + d.day

/-- The place of a day among all days. -/
def dayNumber (d : Date) : Int :=
  daysBeforeYear d.year + d.dayOfYear

/-- The place of the month of a day among all months. -/
def monthNumber (d : Date) : Int :=
  12 * d.year + d.month

variable {d e : Date}

theorem of?_eq_some_iff {year : Int} {month day : Nat} :
    of? year month day = some e ↔ e.year = year ∧ e.month = month ∧ e.day = day := by
  obtain ⟨y, m, k, valid⟩ := e
  unfold of?
  constructor
  · intro found
    split at found
    · cases found
      exact ⟨rfl, rfl, rfl⟩
    · cases found
  · rintro ⟨rfl, rfl, rfl⟩
    exact dif_pos valid

theorem exists_of? {year : Int} {month day : Nat} (inside : firstYear ≤ year ∧ year ≤ lastYear)
    (isMonth : 1 ≤ month ∧ month ≤ 12) (isDay : 1 ≤ day ∧ day ≤ daysInMonth year month) :
    ∃ e, of? year month day = some e :=
  ⟨_, dif_pos ⟨inside, isMonth, isDay⟩⟩

theorem dayOfYear_le_month (d : Date) : d.dayOfYear ≤ daysBeforeMonth d.year (d.month + 1) := by
  obtain ⟨-, isMonth, isDay⟩ := d.valid
  rw [daysBeforeMonth_succ d.year isMonth.1]
  exact Nat.add_le_add_left isDay.2 _

theorem dayOfYear_le (d : Date) : d.dayOfYear ≤ daysInYear d.year := by
  rw [← daysBeforeMonth_thirteen]
  exact d.dayOfYear_le_month.trans (daysBeforeMonth_mono _ (Nat.add_le_add_right d.valid.2.1.2 1))

theorem dayOfYear_pos (d : Date) : 0 < d.dayOfYear := by
  have := d.valid
  unfold dayOfYear
  omega

/-- A day comes before another one in an earlier year, in an earlier month of the same year, or earlier in
the same month. -/
def Before (d e : Date) : Prop :=
  d.year < e.year ∨ d.year = e.year ∧ (d.month < e.month ∨ d.month = e.month ∧ d.day < e.day)

theorem dayOfYear_lt_of_month (year : d.year = e.year) (month : d.month < e.month) :
    d.dayOfYear < e.dayOfYear := by
  have upTo : daysBeforeMonth d.year (d.month + 1) ≤ daysBeforeMonth d.year e.month :=
    daysBeforeMonth_mono d.year month
  have := d.dayOfYear_le_month
  have := e.valid
  rw [dayOfYear.eq_def e, ← year]
  omega

theorem dayNumber_lt_of_before (before : d.Before e) : d.dayNumber < e.dayNumber := by
  unfold dayNumber
  rcases before with year | ⟨year, month | ⟨month, day⟩⟩
  · have upTo := daysBeforeYear_strictMono.monotone (Int.add_one_le_of_lt year)
    rw [daysBeforeYear_succ] at upTo
    have := d.dayOfYear_le
    have := e.dayOfYear_pos
    omega
  · have := dayOfYear_lt_of_month year month
    rw [year]
    omega
  · unfold dayOfYear
    rw [year, month]
    omega

theorem eq_or_before (d e : Date) : d = e ∨ d.Before e ∨ e.Before d := by
  obtain ⟨year, month, day, _⟩ := d
  obtain ⟨year', month', day', _⟩ := e
  simp only [Before, mk.injEq]
  omega

/-- The numbers of days order them as their years, months and days of the month do. -/
theorem dayNumber_lt_iff : d.dayNumber < e.dayNumber ↔ d.Before e := by
  refine ⟨fun less => ?_, dayNumber_lt_of_before⟩
  rcases eq_or_before d e with rfl | before | behind
  · omega
  · exact before
  · have := dayNumber_lt_of_before behind
    omega

theorem dayNumber_injective (same : d.dayNumber = e.dayNumber) : d = e := by
  rcases eq_or_before d e with equal | before | behind
  · exact equal
  · have := dayNumber_lt_of_before before
    omega
  · have := dayNumber_lt_of_before behind
    omega

/-! ## Steps from day to day -/

theorem dayNumber_of_next? (found : d.next? = some e) : e.dayNumber = d.dayNumber + 1 := by
  obtain ⟨-, isMonth, isDay⟩ := d.valid
  have behind := daysBeforeMonth_succ d.year isMonth.1
  unfold next? at found
  unfold dayNumber dayOfYear
  split at found
  · obtain ⟨year, month, day⟩ := of?_eq_some_iff.1 found
    rw [year, month, day]
    omega
  · split at found
    · obtain ⟨year, month, day⟩ := of?_eq_some_iff.1 found
      rw [year, month, day]
      omega
    · obtain ⟨year, month, day⟩ := of?_eq_some_iff.1 found
      have december : d.month = 12 := by omega
      have last : d.day = daysInMonth d.year d.month := by omega
      rw [← last, december, daysBeforeMonth_thirteen] at behind
      rw [year, month, day, daysBeforeYear_succ, daysBeforeMonth_one, behind, december]
      omega

theorem dayNumber_of_previous? (found : d.previous? = some e) : e.dayNumber + 1 = d.dayNumber := by
  obtain ⟨-, isMonth, isDay⟩ := d.valid
  unfold previous? at found
  unfold dayNumber dayOfYear
  split at found
  · obtain ⟨year, month, day⟩ := of?_eq_some_iff.1 found
    rw [year, month, day]
    omega
  · split at found
    · obtain ⟨year, month, day⟩ := of?_eq_some_iff.1 found
      have behind := daysBeforeMonth_succ d.year (by omega : 1 ≤ d.month - 1)
      rw [Nat.sub_add_cancel isMonth.1] at behind
      rw [year, month, day]
      omega
    · obtain ⟨year, month, day⟩ := of?_eq_some_iff.1 found
      have january : d.month = 1 := by omega
      have behind := daysBeforeMonth_succ (d.year - 1) (by decide : 1 ≤ 12)
      have before := daysBeforeYear_succ (d.year - 1)
      rw [daysBeforeMonth_thirteen] at behind
      rw [Int.sub_add_cancel] at before
      rw [year, month, day, before, behind, january, daysBeforeMonth_one]
      have december : daysInMonth (d.year - 1) 12 = 31 := rfl
      omega

/-- The next day is in the same year or in the one behind it. -/
theorem year_of_next? (found : d.next? = some e) : d.year ≤ e.year ∧ e.year ≤ d.year + 1 := by
  unfold next? at found
  split at found
  · obtain ⟨year, -⟩ := of?_eq_some_iff.1 found
    omega
  · split at found
    · obtain ⟨year, -⟩ := of?_eq_some_iff.1 found
      omega
    · obtain ⟨year, -⟩ := of?_eq_some_iff.1 found
      omega

/-- There is a next day unless no day comes behind. -/
theorem exists_next?_of_before (before : d.Before e) : ∃ next, d.next? = some next := by
  obtain ⟨inside, isMonth, isDay⟩ := d.valid
  obtain ⟨inside', isMonth', isDay'⟩ := e.valid
  unfold next?
  split
  · exact exists_of? inside isMonth (by omega)
  · split
    · exact exists_of? inside (by omega) ⟨Nat.le_refl 1, daysInMonth_pos _ _⟩
    · have later : d.year < e.year := by
        rcases before with year | ⟨year, month | ⟨month, day⟩⟩
        · exact year
        · omega
        · rw [← year, ← month] at isDay'
          omega
      exact exists_of? (by omega) (by decide) ⟨Nat.le_refl 1, daysInMonth_pos _ _⟩

theorem exists_previous?_of_before (before : e.Before d) : ∃ previous, d.previous? = some previous := by
  obtain ⟨inside, isMonth, isDay⟩ := d.valid
  obtain ⟨inside', isMonth', isDay'⟩ := e.valid
  unfold previous?
  split
  · exact exists_of? inside isMonth (by omega)
  · split
    · exact exists_of? inside (by omega) ⟨daysInMonth_pos _ _, Nat.le_refl _⟩
    · have earlier : e.year < d.year := by
        rcases before with year | ⟨year, month | ⟨month, day⟩⟩
        · exact year
        · omega
        · omega
      exact exists_of? (by omega) (by decide) ⟨by decide, Nat.le_refl 31⟩

/-- The next day is the one with the next number. -/
theorem next?_eq_some_iff : d.next? = some e ↔ e.dayNumber = d.dayNumber + 1 := by
  refine ⟨dayNumber_of_next?, fun number => ?_⟩
  obtain ⟨next, found⟩ := exists_next?_of_before (dayNumber_lt_iff.1 (by omega : d.dayNumber < e.dayNumber))
  have := dayNumber_of_next? found
  rw [found, dayNumber_injective (by omega : next.dayNumber = e.dayNumber)]

theorem previous?_eq_some_iff : d.previous? = some e ↔ e.dayNumber + 1 = d.dayNumber := by
  refine ⟨dayNumber_of_previous?, fun number => ?_⟩
  obtain ⟨previous, found⟩ :=
    exists_previous?_of_before (dayNumber_lt_iff.1 (by omega : e.dayNumber < d.dayNumber))
  have := dayNumber_of_previous? found
  rw [found, dayNumber_injective (by omega : previous.dayNumber = e.dayNumber)]

/-- The day before a day is the one that the day is next to. -/
theorem previous?_eq_some_iff_next? : d.previous? = some e ↔ e.next? = some d := by
  rw [previous?_eq_some_iff, next?_eq_some_iff, eq_comm]

/-- Two days are in the same month if the numbers of their months agree. -/
theorem monthNumber_eq_iff : d.monthNumber = e.monthNumber ↔ d.year = e.year ∧ d.month = e.month := by
  have := d.valid
  have := e.valid
  unfold monthNumber
  omega

/-- The next month begins with the first day of the month with the next number. -/
theorem nextMonth?_eq_some_iff :
    d.nextMonth? = some e ↔ e.monthNumber = d.monthNumber + 1 ∧ e.day = 1 := by
  have := d.valid
  have := e.valid
  unfold nextMonth? monthNumber
  split
  · rw [of?_eq_some_iff]
    omega
  · rw [of?_eq_some_iff]
    omega

end Date

end PortableSql.Calendar
