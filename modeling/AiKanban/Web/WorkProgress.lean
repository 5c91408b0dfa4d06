import AiKanban.Domain.Dates

/-!
# Work progress

The burn-down of the web client in the time zone UTC, where a local day is a day of
milliseconds. Its loop over the days stops after 800 of them: it counts as the server does up
to the midnight after the last.
-/
namespace AiKanban.Web

open Domain

def msPerHour : ℤ := 3600000

/-- Loop backstop: a stale start just reads as overdue. -/
def maxDays : ℕ := 800

/-- The instant of an hour of the day. -/
def atHour (cursor : ℤ) (hour : ℕ) : ℤ := cursor * msPerDay + hour * msPerHour

/-- At most so many days from the cursor on. -/
def countDays (start stop : ℤ) (hours : BusinessHours) : ℕ → ℤ → ℚ → ℚ
  | 0, _, total => total
  | days + 1, cursor, total =>
      let total :=
        if utcWeekday cursor ≠ 0 ∧ utcWeekday cursor ≠ 6 then
          total + minutesWithin start stop (atHour cursor hours.startHour) (atHour cursor hours.endHour)
        else total
      if stop < (cursor + 1) * msPerDay then total
      else countDays start stop hours days (cursor + 1) total

def businessMinutesBetween (start stop : Instant) (hours : BusinessHours) : ℚ :=
  if stop ≤ start then 0 else countDays start stop hours maxDays (start / msPerDay) 0

/-- The midnight at which the client stops counting. -/
def lastMidnight (start : Instant) : Instant := (start / msPerDay + maxDays) * msPerDay

section counting

variable {start stop : ℤ} {hours : BusinessHours}

theorem atHour_eq (cursor : ℤ) (hour : ℕ) :
    atHour cursor hour = cursor * msPerDay + hour * 60 * msPerMinute := by
  unfold atHour msPerHour msPerMinute
  ring

/-- One round adds what the day adds. -/
theorem add_minutesOfDay (cursor : ℤ) (total : ℚ) :
    (if utcWeekday cursor ≠ 0 ∧ utcWeekday cursor ≠ 6 then
      total + minutesWithin start stop (atHour cursor hours.startHour) (atHour cursor hours.endHour)
    else total) = total + minutesOfDay start stop hours cursor := by
  unfold minutesOfDay
  split_ifs
  · rw [atHour_eq, atHour_eq]
  · rw [add_zero]

/-- The loop adds up the days that begin by the end, but no more than its limit. -/
theorem countDays_eq (n days : ℕ) (cursor : ℤ) (total : ℚ) (hreached : cursor ≤ stop / msPerDay)
    (h : (n : ℤ) = min (days : ℤ) (stop / msPerDay + 1 - cursor)) :
    countDays start stop hours days cursor total =
      total + ∑ k ∈ Finset.range n, minutesOfDay start stop hours (cursor + k) := by
  induction days generalizing n cursor total with
  | zero =>
    obtain rfl : n = 0 := by omega
    rw [countDays, Finset.sum_range_zero, add_zero]
  | succ days ih =>
    obtain ⟨n, rfl⟩ : ∃ m, n = m + 1 := ⟨n - 1, by omega⟩
    have hshift : ∀ k : ℕ, cursor + 1 + (k : ℤ) = cursor + ((k + 1 : ℕ) : ℤ) := by
      intro k
      push_cast
      ring
    rw [countDays, add_minutesOfDay]
    by_cases hlast : stop < (cursor + 1) * msPerDay
    · have hday : stop / msPerDay < cursor + 1 := Int.ediv_lt_of_lt_mul (by decide) hlast
      obtain rfl : n = 0 := by omega
      rw [if_pos hlast, Finset.sum_range_one, Nat.cast_zero, add_zero]
    · have hday : cursor + 1 ≤ stop / msPerDay := day_le_iff.mp (not_lt.mp hlast)
      rw [if_neg hlast, ih n (cursor + 1) _ hday (by omega), Finset.sum_range_succ']
      simp only [hshift, Nat.cast_zero, add_zero]
      ring

theorem minutesOfDay_late {day : ℤ} (h : stop ≤ day * msPerDay) :
    minutesOfDay start stop hours day = 0 := by
  have hempty : ¬ max start (day * msPerDay + hours.startHour * 60 * msPerMinute) <
      min stop (day * msPerDay + hours.endHour * 60 * msPerMinute) := by
    have hpositive : (0 : ℤ) ≤ hours.startHour * 60 * msPerMinute :=
      mul_nonneg (by positivity) (by decide)
    rw [not_lt]
    exact (min_le_left _ _).trans (h.trans (le_max_of_le_right (by linarith)))
  unfold minutesOfDay minutesWithin
  rw [if_neg hempty, ite_self]

/-- A window that closes by an earlier end does not feel a later one. -/
theorem minutesOfDay_cut (h : hours.Accepted) {day cut : ℤ} (hday : (day + 1) * msPerDay ≤ cut)
    (hcut : cut ≤ stop) : minutesOfDay start stop hours day = minutesOfDay start cut hours day := by
  have hclosed : day * msPerDay + hours.endHour * 60 * msPerMinute ≤ cut := by
    have hhour := h.stop.2
    simp only [msPerDay, msPerMinute] at hday ⊢
    omega
  unfold minutesOfDay minutesWithin
  rw [min_eq_right hclosed, min_eq_right (hclosed.trans hcut)]

theorem core_eq (n : ℕ) (h : start < stop) (hn : (n : ℤ) = stop / msPerDay + 1 - start / msPerDay) :
    Domain.businessMinutesBetween start stop hours =
      ∑ k ∈ Finset.range n, minutesOfDay start stop hours (start / msPerDay + k) := by
  rw [Domain.businessMinutesBetween, if_neg (not_le.mpr h), walkDays_eq n _ _ hn, zero_add]

theorem web_eq (n : ℕ) (h : start < stop)
    (hn : (n : ℤ) = min (maxDays : ℤ) (stop / msPerDay + 1 - start / msPerDay)) :
    businessMinutesBetween start stop hours =
      ∑ k ∈ Finset.range n, minutesOfDay start stop hours (start / msPerDay + k) := by
  have hday : start / msPerDay ≤ stop / msPerDay := Int.ediv_le_ediv (by decide) h.le
  rw [businessMinutesBetween, if_neg (not_le.mpr h), countDays_eq n _ _ _ hday hn, zero_add]

theorem lt_lastMidnight (start : ℤ) : start < lastMidnight start := by
  unfold lastMidnight maxDays
  have hday := Int.lt_ediv_add_one_mul_self start (show (0 : ℤ) < msPerDay by decide)
  simp only [msPerDay] at hday ⊢
  push_cast
  omega

theorem agree_short (h : start < stop) (hshort : stop < lastMidnight start) :
    businessMinutesBetween start stop hours =
      Domain.businessMinutesBetween start (min stop (lastMidnight start)) hours := by
  have hday : start / msPerDay ≤ stop / msPerDay := Int.ediv_le_ediv (by decide) h.le
  have hlast : stop / msPerDay < start / msPerDay + maxDays :=
    Int.ediv_lt_of_lt_mul (by decide) hshort
  obtain ⟨n, hn⟩ := Int.eq_ofNat_of_zero_le (show 0 ≤ stop / msPerDay + 1 - start / msPerDay by omega)
  rw [min_eq_left hshort.le, core_eq n h hn.symm, web_eq n h (by omega)]

theorem agree_long (haccepted : hours.Accepted) (hlong : lastMidnight start ≤ stop) :
    businessMinutesBetween start stop hours =
      Domain.businessMinutesBetween start (min stop (lastMidnight start)) hours := by
  have hafter := lt_lastMidnight start
  have hmidnight : lastMidnight start / msPerDay = start / msPerDay + maxDays :=
    Int.mul_ediv_cancel _ (by decide)
  have hlast : start / msPerDay + maxDays ≤ stop / msPerDay := day_le_iff.mp hlong
  rw [min_eq_right hlong, web_eq maxDays (hafter.trans_le hlong) (by omega),
    core_eq (maxDays + 1) hafter (by rw [hmidnight]; push_cast; ring), Finset.sum_range_succ,
    minutesOfDay_late (show lastMidnight start ≤ _ from le_rfl), add_zero]
  refine Finset.sum_congr rfl fun k hk => minutesOfDay_cut haccepted ?_ hlong
  have hk := Finset.mem_range.mp hk
  unfold lastMidnight
  simp only [msPerDay]
  omega

/-- The client counts as the server does, but no further than 800 days. -/
theorem businessMinutes_agree (start stop : Instant) {hours : BusinessHours} (h : hours.Accepted) :
    (stop ≤ lastMidnight start → businessMinutesBetween start stop hours =
      Domain.businessMinutesBetween start stop hours) ∧
    businessMinutesBetween start stop hours =
      Domain.businessMinutesBetween start (min stop (lastMidnight start)) hours := by
  have hcut : businessMinutesBetween start stop hours =
      Domain.businessMinutesBetween start (min stop (lastMidnight start)) hours := by
    by_cases hafter : start < stop
    · by_cases hshort : stop < lastMidnight start
      · exact agree_short hafter hshort
      · exact agree_long h (not_lt.mp hshort)
    · have hbefore : stop ≤ start := not_lt.mp hafter
      rw [businessMinutesBetween, if_pos hbefore, Domain.businessMinutesBetween,
        if_pos ((min_le_left _ _).trans hbefore)]
  refine ⟨fun hshort => ?_, hcut⟩
  rwa [min_eq_left hshort] at hcut

end counting

/-- From a Thursday on, a thousand days. -/
theorem businessMinutes_differ :
    businessMinutesBetween 0 (1000 * msPerDay) defaultBusinessHours = 274560 ∧
      Domain.businessMinutesBetween 0 (1000 * msPerDay) defaultBusinessHours = 342720 := by
  constructor
  · decide +kernel
  · rw [core_eq 1001 (by decide) (by decide)]
    decide +kernel

/-- Over the weekend from a Thursday noon to a Monday noon. -/
theorem businessMinutes_agree_weekend :
    businessMinutesBetween 43200000 388800000 defaultBusinessHours =
      Domain.businessMinutesBetween 43200000 388800000 defaultBusinessHours :=
  (businessMinutes_agree 43200000 388800000 ⟨by decide, by decide, by decide⟩).1 (by decide)

end AiKanban.Web
