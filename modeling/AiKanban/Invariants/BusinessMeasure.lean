import Mathlib
import AiKanban.Domain.Dates

/-!
# Business minutes as a measure

The loop over the days adds up the length of the part of an interval that lies in the working
hours, so that business time is additive and only grows.
-/
namespace AiKanban.Invariants

open Domain MeasureTheory

/-- A day from Monday to Friday. -/
def Workday (day : Day) : Prop := utcWeekday day ≠ 0 ∧ utcWeekday day ≠ 6

instance (day : Day) : Decidable (Workday day) := inferInstanceAs (Decidable (_ ∧ _))

def windowStart (hours : BusinessHours) (day : Day) : ℤ :=
  day * msPerDay + hours.startHour * 60 * msPerMinute

def windowEnd (hours : BusinessHours) (day : Day) : ℤ :=
  day * msPerDay + hours.endHour * 60 * msPerMinute

/-- The working hours of a day on the time line. -/
def window (hours : BusinessHours) (day : Day) : Set ℝ :=
  Set.Ico (windowStart hours day : ℝ) (windowEnd hours day : ℝ)

/-- The working hours of all days from Monday to Friday. -/
def workingTime (hours : BusinessHours) : Set ℝ :=
  ⋃ day ∈ {day : ℤ | Workday day}, window hours day

/-- The part of an interval that is working time. -/
def working (hours : BusinessHours) (a b : Instant) : Set ℝ :=
  Set.Ico (a : ℝ) (b : ℝ) ∩ workingTime hours

section windows

variable {hours : BusinessHours} {a b day : ℤ} {x : ℝ}

/-- The working hours of a day are within it. -/
theorem window_within (h : hours.Accepted) (hx : x ∈ window hours day) :
    ((day * msPerDay : ℤ) : ℝ) ≤ x ∧ x < (((day + 1) * msPerDay : ℤ) : ℝ) := by
  obtain ⟨hstart, hend⟩ := hx
  have hopen : day * msPerDay ≤ windowStart hours day := by
    simp only [windowStart, msPerMinute, msPerDay]
    omega
  have hclose : windowEnd hours day ≤ (day + 1) * msPerDay := by
    have hhour := h.stop.2
    simp only [windowEnd, msPerMinute, msPerDay]
    omega
  constructor
  · exact le_trans (by exact_mod_cast hopen) hstart
  · exact lt_of_lt_of_le hend (by exact_mod_cast hclose)

theorem day_eq_of_mem (h : hours.Accepted) {day' : ℤ} (hx : x ∈ window hours day)
    (hx' : x ∈ window hours day') : day = day' := by
  obtain ⟨hlow, hhigh⟩ := window_within h hx
  obtain ⟨hlow', hhigh'⟩ := window_within h hx'
  have hlt : day * msPerDay < (day' + 1) * msPerDay := by
    exact_mod_cast lt_of_le_of_lt hlow hhigh'
  have hlt' : day' * msPerDay < (day + 1) * msPerDay := by
    exact_mod_cast lt_of_le_of_lt hlow' hhigh
  simp only [msPerDay] at hlt hlt'
  omega

/-- A day whose hours meet an interval is between those of its ends. -/
theorem day_bounds (h : hours.Accepted) (hx : x ∈ window hours day)
    (hab : x ∈ Set.Ico (a : ℝ) (b : ℝ)) : a / msPerDay ≤ day ∧ day ≤ b / msPerDay := by
  obtain ⟨hlow, hhigh⟩ := window_within h hx
  have hstart : a < (day + 1) * msPerDay := by exact_mod_cast lt_of_le_of_lt hab.1 hhigh
  have hend : day * msPerDay < b := by exact_mod_cast lt_of_le_of_lt hlow hab.2
  simp only [msPerDay] at hstart hend ⊢
  omega

theorem measurableSet_workingTime : MeasurableSet (workingTime hours) :=
  MeasurableSet.biUnion (Set.to_countable _) fun _ _ => measurableSet_Ico

theorem measurableSet_working : MeasurableSet (working hours a b) :=
  measurableSet_Ico.inter measurableSet_workingTime

theorem volume_part_ne_top (s : Set ℝ) : volume (Set.Ico (a : ℝ) (b : ℝ) ∩ s) ≠ ⊤ := by
  apply measure_ne_top_of_subset Set.inter_subset_left
  rw [Real.volume_Ico]
  exact ENNReal.ofReal_ne_top

/-- The days from the first to the last one cover the working time of an interval. -/
theorem working_eq (h : hours.Accepted) (n : ℕ)
    (hn : (n : ℤ) = b / msPerDay + 1 - a / msPerDay) :
    working hours a b =
      ⋃ k ∈ (Finset.range n).filter fun k : ℕ => Workday (a / msPerDay + (k : ℤ)),
        Set.Ico (a : ℝ) (b : ℝ) ∩ window hours (a / msPerDay + (k : ℤ)) := by
  ext x
  simp only [working, workingTime, Set.mem_inter_iff, Set.mem_iUnion, Set.mem_ofPred_eq,
    exists_prop, Finset.mem_filter, Finset.mem_range]
  constructor
  · rintro ⟨hab, day, hwork, hx⟩
    have hdays : a / msPerDay ≤ day ∧ day ≤ b / msPerDay := day_bounds h hx hab
    obtain ⟨k, hk⟩ : ∃ k : ℕ, day = a / msPerDay + (k : ℤ) :=
      ⟨(day - a / msPerDay).toNat, by omega⟩
    rw [hk] at hwork hx
    exact ⟨k, ⟨by omega, hwork⟩, hab, hx⟩
  · rintro ⟨k, ⟨-, hwork⟩, hab, hx⟩
    exact ⟨hab, _, hwork, hx⟩

/-- The part of an interval within another one has the length of the overlap. -/
theorem minutesWithin_eq (c d : ℤ) : ((minutesWithin a b c d : ℚ) : ℝ) =
    volume.real (Set.Ico (a : ℝ) (b : ℝ) ∩ Set.Ico (c : ℝ) (d : ℝ)) / 60000 := by
  have hlength : volume.real (Set.Ico (a : ℝ) (b : ℝ) ∩ Set.Ico (c : ℝ) (d : ℝ)) =
      max ((min b d - max a c : ℤ) : ℝ) 0 := by
    rw [Set.Ico_inter_Ico, Real.volume_real_Ico]
    push_cast
    rfl
  rw [hlength, minutesWithin]
  split_ifs with hopen
  · have hpositive : (0 : ℝ) ≤ ((min b d - max a c : ℤ) : ℝ) := by
      exact_mod_cast (sub_pos.mpr hopen).le
    rw [max_eq_left hpositive]
    simp only [msPerMinute]
    push_cast
    rfl
  · have hnegative : ((min b d - max a c : ℤ) : ℝ) ≤ 0 := by
      exact_mod_cast sub_nonpos.mpr (not_lt.mp hopen)
    rw [max_eq_right hnegative, Rat.cast_zero, zero_div]

/-- What a day adds to the minutes is the length of its part. -/
theorem minutesOfDay_eq : ((minutesOfDay a b hours day : ℚ) : ℝ) =
    if Workday day then volume.real (Set.Ico (a : ℝ) (b : ℝ) ∩ window hours day) / 60000 else 0 := by
  unfold minutesOfDay
  by_cases hwork : Workday day
  · rw [if_pos hwork, if_pos (show _ ∧ _ from hwork)]
    exact minutesWithin_eq _ _
  · rw [if_neg hwork, if_neg (show ¬ (_ ∧ _) from hwork), Rat.cast_zero]

/-- The parts of different days do not meet. -/
theorem disjoint_windows (h : hours.Accepted) {day' : ℤ} (hne : day ≠ day') :
    Disjoint (Set.Ico (a : ℝ) (b : ℝ) ∩ window hours day)
      (Set.Ico (a : ℝ) (b : ℝ) ∩ window hours day') := by
  rw [Set.disjoint_left]
  rintro x ⟨-, hx⟩ ⟨-, hx'⟩
  exact hne (day_eq_of_mem h hx hx')

end windows

section measure

variable {hours : BusinessHours} {a b c : ℤ}

theorem businessMinutes_eq (h : hours.Accepted) (hab : a ≤ b) :
    ((businessMinutesBetween a b hours : ℚ) : ℝ) = volume.real (working hours a b) / 60000 := by
  rcases hab.eq_or_lt with rfl | hlt
  · rw [businessMinutesBetween, if_pos le_rfl, working, Set.Ico_self, Set.empty_inter,
      measureReal_empty, Rat.cast_zero, zero_div]
  have hdays : a / msPerDay ≤ b / msPerDay := Int.ediv_le_ediv (by decide) hab
  obtain ⟨n, hn⟩ := Int.eq_ofNat_of_zero_le (show 0 ≤ b / msPerDay + 1 - a / msPerDay by omega)
  have hcover := working_eq h n hn.symm
  have hsum : volume.real (working hours a b) =
      ∑ k ∈ (Finset.range n).filter fun k : ℕ => Workday (a / msPerDay + (k : ℤ)),
        volume.real (Set.Ico (a : ℝ) (b : ℝ) ∩ window hours (a / msPerDay + (k : ℤ))) := by
    rw [hcover]
    apply measureReal_biUnion_finset
    · intro j _ k _ hne
      exact disjoint_windows h (by omega)
    · intro k _
      exact measurableSet_Ico.inter measurableSet_Ico
    · intro k _
      exact volume_part_ne_top _
  rw [businessMinutesBetween, if_neg (not_le.mpr hlt), walkDays_eq n _ _ hn.symm, zero_add, hsum,
    Rat.cast_sum, Finset.sum_div, Finset.sum_filter]
  exact Finset.sum_congr rfl fun k _ => minutesOfDay_eq

theorem working_union (hab : a ≤ b) (hbc : b ≤ c) :
    working hours a c = working hours a b ∪ working hours b c := by
  have hle : (a : ℝ) ≤ b := by exact_mod_cast hab
  have hle' : (b : ℝ) ≤ c := by exact_mod_cast hbc
  rw [working, working, working, ← Set.union_inter_distrib_right, Set.Ico_union_Ico_eq_Ico hle hle']

theorem disjoint_working : Disjoint (working hours a b) (working hours b c) := by
  rw [Set.disjoint_left]
  rintro x ⟨hx, -⟩ ⟨hx', -⟩
  exact absurd hx.2 (not_lt.mpr hx'.1)

theorem businessMinutes_add (h : hours.Accepted) (hab : a ≤ b) (hbc : b ≤ c) :
    businessMinutesBetween a c hours =
      businessMinutesBetween a b hours + businessMinutesBetween b c hours := by
  have hvolume : volume.real (working hours a c) =
      volume.real (working hours a b) + volume.real (working hours b c) := by
    rw [working_union hab hbc]
    exact measureReal_union disjoint_working measurableSet_working
      (volume_part_ne_top _) (volume_part_ne_top _)
  have hreal : ((businessMinutesBetween a c hours : ℚ) : ℝ) =
      ((businessMinutesBetween a b hours + businessMinutesBetween b c hours : ℚ) : ℝ) := by
    rw [Rat.cast_add, businessMinutes_eq h hab, businessMinutes_eq h hbc,
      businessMinutes_eq h (hab.trans hbc), hvolume, add_div]
  exact_mod_cast hreal

theorem businessMinutes_nonneg (h : hours.Accepted) : 0 ≤ businessMinutesBetween a b hours := by
  by_cases hab : a ≤ b
  · have hreal : (0 : ℝ) ≤ ((businessMinutesBetween a b hours : ℚ) : ℝ) := by
      rw [businessMinutes_eq h hab]
      positivity
    exact_mod_cast hreal
  · rw [businessMinutesBetween, if_pos (not_le.mp hab).le]

/-- Business time only grows with its end. -/
theorem businessMinutes_mono (h : hours.Accepted) (hbc : b ≤ c) :
    businessMinutesBetween a b hours ≤ businessMinutesBetween a c hours := by
  by_cases hab : a ≤ b
  · rw [businessMinutes_add h hab hbc]
    linarith [@businessMinutes_nonneg hours b c h]
  · rw [businessMinutesBetween, if_pos (not_le.mp hab).le]
    exact businessMinutes_nonneg h

/-- Business minutes measure the working time of an interval: they are additive and grow with the
end, so that overdue work stays overdue. -/
theorem businessMinutes_measure (hours : BusinessHours) (h : hours.Accepted) (a b c : Instant)
    (hab : a ≤ b) (hbc : b ≤ c) :
    ((businessMinutesBetween a b hours : ℚ) : ℝ) =
        volume.real (Set.Ico (a : ℝ) (b : ℝ) ∩ workingTime hours) / 60000 ∧
      businessMinutesBetween a c hours =
        businessMinutesBetween a b hours + businessMinutesBetween b c hours ∧
      businessMinutesBetween a b hours ≤ businessMinutesBetween a c hours ∧
      ∀ (workStartedAt : Option Instant) (estimateMinutes : Option ℕ) (now later : Instant),
        now ≤ later → isWorkOverdue workStartedAt estimateMinutes now hours = true →
          isWorkOverdue workStartedAt estimateMinutes later hours = true := by
  refine ⟨businessMinutes_eq h hab, businessMinutes_add h hab hbc, businessMinutes_mono h hbc, ?_⟩
  intro workStartedAt estimateMinutes now later hlater hoverdue
  cases workStartedAt with
  | none => exact hoverdue
  | some started =>
    cases estimateMinutes with
    | none => exact hoverdue
    | some estimate =>
      simp only [isWorkOverdue, decide_eq_true_eq] at hoverdue ⊢
      exact hoverdue.trans (businessMinutes_mono h hlater)

/-- From the epoch, a Thursday, over the next Monday. -/
theorem businessMinutes_measure_week :
    ((businessMinutesBetween 0 345600000 ⟨9, 17⟩ : ℚ) : ℝ) =
      volume.real (Set.Ico ((0 : ℤ) : ℝ) ((345600000 : ℤ) : ℝ) ∩ workingTime ⟨9, 17⟩) / 60000 :=
  (businessMinutes_measure ⟨9, 17⟩ ⟨by decide, by decide, by decide⟩ 0 345600000 432000000
    (by decide) (by decide)).1

end measure

end AiKanban.Invariants
