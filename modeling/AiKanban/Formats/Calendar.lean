import Mathlib.Data.Nat.Find
import Mathlib.Tactic

/-!
# The Gregorian calendar

Days of the proleptic calendar, counted from the first of January of the year 0. Years and months
are both found as the segments that a day falls into.
-/
namespace AiKanban.Formats

section segments

/-- The segment that a position falls into, up to a bound. -/
def segmentOf (start : ℕ → ℕ) (bound n : ℕ) : ℕ := Nat.findGreatest (fun k => start k ≤ n) bound

variable {start length : ℕ → ℕ} (hstep : ∀ k, start (k + 1) = start k + length k)
include hstep

theorem start_le {k k' : ℕ} (h : k < k') : start k + length k ≤ start k' := by
  induction k', h using Nat.le_induction with
  | base => exact (hstep k).ge
  | succ k' _ ih =>
    rw [hstep k']
    omega

/-- Positions are ordered by their segments first. -/
theorem position_lt_iff {k k' r r' : ℕ} (hr : r < length k) (hr' : r' < length k') :
    start k + r < start k' + r' ↔ k < k' ∨ k = k' ∧ r < r' := by
  rcases lt_trichotomy k k' with hlt | rfl | hgt
  · have hstart := start_le hstep hlt
    omega
  · omega
  · have hstart := start_le hstep hgt
    omega

/-- A position is within its segment. -/
theorem segmentOf_spec {bound n : ℕ} (hzero : start 0 = 0) (hbound : n < start (bound + 1)) :
    start (segmentOf start bound n) ≤ n ∧
      n - start (segmentOf start bound n) < length (segmentOf start bound n) ∧
        segmentOf start bound n ≤ bound := by
  have hle : segmentOf start bound n ≤ bound := Nat.findGreatest_le bound
  have hstart : start (segmentOf start bound n) ≤ n :=
    Nat.findGreatest_spec (P := fun k => start k ≤ n) (Nat.zero_le bound) (by omega)
  have hnext : n < start (segmentOf start bound n + 1) := by
    rcases hle.eq_or_lt with heq | hlt
    · rwa [heq]
    · exact not_le.mp (Nat.findGreatest_is_greatest (P := fun k => start k ≤ n)
        (Nat.lt_succ_self _) hlt)
  rw [hstep] at hnext
  exact ⟨hstart, by omega, hle⟩

end segments

def isLeap (year : ℕ) : Bool := year % 4 == 0 && (year % 100 != 0 || year % 400 == 0)

def yearLength (year : ℕ) : ℕ := if isLeap year then 366 else 365

def daysBeforeYear (year : ℕ) : ℕ := 365 * year + (year + 3) / 4 - (year + 99) / 100 + (year + 399) / 400

def daysInMonth (leap : Bool) : ℕ → ℕ
  | 2 => if leap then 29 else 28
  | 4 | 6 | 9 | 11 => 30
  | _ => 31

/-- The days before the month after so many. -/
def daysBeforeMonth (leap : Bool) : ℕ → ℕ
  | 0 => 0
  | months + 1 => daysBeforeMonth leap months + daysInMonth leap (months + 1)

@[ext] structure CivilDate where
  year : ℕ
  month : ℕ
  day : ℕ
  deriving DecidableEq

/-- A date of the years that are written with four digits. -/
structure CivilDate.Valid (date : CivilDate) : Prop where
  year : date.year ≤ 9999
  month : 1 ≤ date.month ∧ date.month ≤ 12
  day : 1 ≤ date.day ∧ date.day ≤ daysInMonth (isLeap date.year) date.month

instance (date : CivilDate) : Decidable date.Valid :=
  decidable_of_iff (date.year ≤ 9999 ∧ (1 ≤ date.month ∧ date.month ≤ 12) ∧
      1 ≤ date.day ∧ date.day ≤ daysInMonth (isLeap date.year) date.month)
    ⟨fun h => ⟨h.1, h.2.1, h.2.2⟩, fun h => ⟨h.year, h.month, h.day⟩⟩

def dayOfYear (date : CivilDate) : ℕ :=
  daysBeforeMonth (isLeap date.year) (date.month - 1) + (date.day - 1)

/-- The day's number. -/
def dayNumber (date : CivilDate) : ℕ := daysBeforeYear date.year + dayOfYear date

/-- The date of a day of the first ten thousand years. -/
def civilOf (n : ℕ) : CivilDate :=
  let year := segmentOf daysBeforeYear 9999 n
  let rest := n - daysBeforeYear year
  let month := segmentOf (daysBeforeMonth (isLeap year)) 11 rest
  ⟨year, month + 1, rest - daysBeforeMonth (isLeap year) month + 1⟩

section dates

theorem daysBeforeYear_succ (year : ℕ) :
    daysBeforeYear (year + 1) = daysBeforeYear year + yearLength year := by
  have hfour : (year + 1 + 3) / 4 = (year + 3) / 4 + if year % 4 = 0 then 1 else 0 := by
    split_ifs <;> omega
  have hcentury : (year + 1 + 99) / 100 = (year + 99) / 100 + if year % 100 = 0 then 1 else 0 := by
    split_ifs <;> omega
  have hcycle : (year + 1 + 399) / 400 = (year + 399) / 400 + if year % 400 = 0 then 1 else 0 := by
    split_ifs <;> omega
  have hless : (year + 99) / 100 ≤ 365 * year + (year + 3) / 4 := by omega
  have hlength : yearLength year + (if year % 100 = 0 then 1 else 0) =
      365 + (if year % 4 = 0 then 1 else 0) + if year % 400 = 0 then 1 else 0 := by
    have hleap : isLeap year = true ↔ year % 4 = 0 ∧ (year % 100 ≠ 0 ∨ year % 400 = 0) := by
      simp [isLeap]
    have hfourth : year % 100 = 0 → year % 4 = 0 := by omega
    have hhundred : year % 400 = 0 → year % 100 = 0 := by omega
    unfold yearLength
    simp only [hleap]
    generalize year % 4 = a at *
    generalize year % 100 = b at *
    generalize year % 400 = c at *
    split_ifs <;> omega
  unfold daysBeforeYear
  rw [hfour, hcentury, hcycle]
  omega

theorem daysInMonth_le (leap : Bool) (month : ℕ) : daysInMonth leap month ≤ 31 := by
  unfold daysInMonth
  split <;> first | omega | (split_ifs <;> omega)

theorem daysBeforeMonth_succ (leap : Bool) (months : ℕ) :
    daysBeforeMonth leap (months + 1) = daysBeforeMonth leap months + daysInMonth leap (months + 1) :=
  rfl

theorem daysBeforeMonth_year (year : ℕ) : daysBeforeMonth (isLeap year) 12 = yearLength year := by
  unfold yearLength
  cases isLeap year <;> decide

variable {date date' : CivilDate}

theorem CivilDate.Valid.lt_month (h : date.Valid) :
    date.day - 1 < daysInMonth (isLeap date.year) (date.month - 1 + 1) := by
  have hmonth : date.month - 1 + 1 = date.month := Nat.sub_add_cancel h.month.1
  have hday := h.day
  rw [hmonth]
  omega

theorem CivilDate.Valid.lt_year (h : date.Valid) : dayOfYear date < yearLength date.year := by
  have hmonth := h.lt_month
  have hyear := daysBeforeMonth_year date.year
  have hend : daysBeforeMonth (isLeap date.year) (date.month - 1) +
      daysInMonth (isLeap date.year) (date.month - 1 + 1) ≤ daysBeforeMonth (isLeap date.year) 12 :=
    start_le (daysBeforeMonth_succ _) (by have := h.month.2; omega)
  unfold dayOfYear
  omega

/-- Dates are ordered by the year, the month and the day. -/
theorem dayNumber_lt_iff (h : date.Valid) (h' : date'.Valid) : dayNumber date < dayNumber date' ↔
    date.year < date'.year ∨ date.year = date'.year ∧ (date.month < date'.month ∨
      date.month = date'.month ∧ date.day < date'.day) := by
  rw [dayNumber, dayNumber, position_lt_iff daysBeforeYear_succ h.lt_year h'.lt_year]
  apply or_congr_right
  apply and_congr_right
  intro hyear
  have hday := h'.lt_month
  rw [dayOfYear, dayOfYear]
  rw [← hyear] at hday ⊢
  rw [position_lt_iff (daysBeforeMonth_succ _) h.lt_month hday]
  have hmonth := h.month
  have hmonth' := h'.month
  have hfirst := h.day.1
  have hfirst' := h'.day.1
  omega

theorem dayNumber_eq_iff (h : date.Valid) (h' : date'.Valid) :
    dayNumber date = dayNumber date' ↔ date = date' := by
  constructor
  · intro heq
    have hlt := dayNumber_lt_iff h h'
    have hgt := dayNumber_lt_iff h' h
    rw [heq] at hlt hgt
    have hyear : date.year = date'.year := by omega
    have hmonth : date.month = date'.month := by omega
    have hday : date.day = date'.day := by omega
    cases date
    cases date'
    simp_all
  · rintro rfl
    rfl

/-- The date of a day is a date, and that of the day. -/
theorem civilOf_spec {n : ℕ} (h : n < daysBeforeYear 10000) :
    (civilOf n).Valid ∧ dayNumber (civilOf n) = n := by
  obtain ⟨hyear, hrest, hbound⟩ := segmentOf_spec daysBeforeYear_succ rfl h
  rw [← daysBeforeMonth_year] at hrest
  obtain ⟨hmonth, hday, htwelve⟩ := segmentOf_spec (daysBeforeMonth_succ _) rfl hrest
  constructor
  · refine ⟨hbound, ⟨?_, ?_⟩, ?_, ?_⟩
    · exact Nat.le_add_left 1 _
    · exact Nat.succ_le_succ htwelve
    · exact Nat.le_add_left 1 _
    · exact hday
  · simp only [dayNumber, dayOfYear, civilOf, Nat.add_sub_cancel]
    omega

end dates

end AiKanban.Formats
