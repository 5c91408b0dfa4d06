import AiKanban.Domain.Policy
import Mathlib.Algebra.BigOperators.Group.Finset.Basic
import Mathlib.Data.Rat.Defs
import Mathlib.Tactic

/-!
# Business time

The minutes of the working days between two instants, in UTC. Minutes are exact rationals.
-/
namespace AiKanban.Domain

def msPerMinute : ℤ := 60000
def msPerDay : ℤ := 86400000

/-- 0 is Sunday and 6 Saturday; the epoch was a Thursday. -/
def utcWeekday (day : Day) : ℤ := (day + 4) % 7

/-- The minutes of a window that lie between the instants. -/
def minutesWithin (start stop windowStart windowEnd : Instant) : ℚ :=
  if max start windowStart < min stop windowEnd then
    ((min stop windowEnd - max start windowStart : ℤ) : ℚ) / (msPerMinute : ℚ)
  else 0

/-- What a day adds: its window of working hours, but nothing on a weekend. -/
def minutesOfDay (start stop : Instant) (hours : BusinessHours) (day : Day) : ℚ :=
  if utcWeekday day ≠ 0 ∧ utcWeekday day ≠ 6 then
    minutesWithin start stop (day * msPerDay + hours.startHour * 60 * msPerMinute)
      (day * msPerDay + hours.endHour * 60 * msPerMinute)
  else 0

/-- The days from one on while they begin by the end. -/
def walkDays (start stop : ℤ) (hours : BusinessHours) (day : ℤ) (total : ℚ) : ℚ :=
  if day * msPerDay ≤ stop then
    walkDays start stop hours (day + 1) (total + minutesOfDay start stop hours day)
  else total
termination_by (stop + 1 - day * msPerDay).toNat
decreasing_by
  simp only [msPerDay] at *
  omega

def businessMinutesBetween (start stop : Instant) (hours : BusinessHours) : ℚ :=
  if stop ≤ start then 0 else walkDays start stop hours (start / msPerDay) 0

/-- A card without a start or an estimate is never overdue. -/
def isWorkOverdue (workStartedAt : Option Instant) (estimateMinutes : Option ℕ) (now : Instant)
    (hours : BusinessHours) : Bool :=
  match workStartedAt, estimateMinutes with
  | some started, some estimate => decide ((estimate : ℚ) ≤ businessMinutesBetween started now hours)
  | _, _ => false

/-- Hours as the policy schema accepts them. -/
structure BusinessHours.Accepted (hours : BusinessHours) : Prop where
  start : hours.startHour ≤ 23
  stop : 1 ≤ hours.endHour ∧ hours.endHour ≤ 24
  order : hours.startHour < hours.endHour

section closedForm

variable {start stop : ℤ} {hours : BusinessHours}

theorem day_le_iff {day : ℤ} : day * msPerDay ≤ stop ↔ day ≤ stop / msPerDay :=
  (Int.le_ediv_iff_mul_le (by decide)).symm

/-- The loop adds up the days that begin by the end. -/
theorem walkDays_eq (n : ℕ) (day : ℤ) (total : ℚ) (h : (n : ℤ) = stop / msPerDay + 1 - day) :
    walkDays start stop hours day total =
      total + ∑ k ∈ Finset.range n, minutesOfDay start stop hours (day + k) := by
  induction n generalizing day total with
  | zero =>
    have hpast : ¬ day * msPerDay ≤ stop := by
      rw [day_le_iff]
      omega
    rw [walkDays, if_neg hpast, Finset.sum_range_zero, add_zero]
  | succ n ih =>
    have hreached : day * msPerDay ≤ stop := by
      rw [day_le_iff]
      omega
    rw [walkDays, if_pos hreached, ih (day + 1) _ (by push_cast at h; omega),
      Finset.sum_range_succ', add_assoc]
    have hshift : ∀ k : ℕ, day + 1 + (k : ℤ) = day + ((k + 1 : ℕ) : ℤ) := by
      intro k
      push_cast
      ring
    simp only [hshift, Nat.cast_zero, add_zero]
    ring

end closedForm

end AiKanban.Domain
