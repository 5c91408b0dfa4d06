import AiKanban.Server.UploadQuota
import Mathlib.Algebra.BigOperators.Group.List.Basic

/-!
# The bound of a day's uploads

A refund on the day of its reservation gives back what the counter holds. A later refund takes
its bytes out of a counter they were never counted in.
-/
namespace AiKanban.Server

open Domain Transitions
open Services.CardService (utcDayOf dayMs)

namespace UploadLedger

/-- The release comes on the day of its reservation, or finds nothing to take bytes from. -/
def SettlesInTime (ledger : UploadLedger) (call : QuotaCall) : Prop :=
  ∀ reservation, call.request = .release reservation →
    reservation.day = utcDayOf call.now ∨ reservation.bytes = 0 ∨
      (ledger.quota.rollover call.now).byUser reservation.userId = 0

/-- The counters cover the reservations of the day they are for, and none is of a later day. -/
structure Sound (ledger : UploadLedger) : Prop where
  bounded : ∀ userId day, heldOn userId day ledger.outstanding ≤ ledger.quota.limitBytes
  covered : ∀ userId, ∀ day ∈ ledger.quota.day,
    heldOn userId day ledger.outstanding ≤ ledger.quota.byUser userId
  past : ∀ reservation ∈ ledger.outstanding, ∃ day ∈ ledger.quota.day, reservation.day ≤ day
  clocked : ∀ day ∈ ledger.quota.day, day ≤ utcDayOf ledger.now

theorem heldOn_cons (r : Reservation) (outstanding : List Reservation) (userId : Uuid) (day : Day) :
    heldOn userId day (r :: outstanding) =
      (if r.userId = userId ∧ r.day = day then r.bytes else 0) + heldOn userId day outstanding :=
  rfl

theorem heldOn_erase {r : Reservation} {outstanding : List Reservation} (hmem : r ∈ outstanding)
    (userId : Uuid) (day : Day) :
    (if r.userId = userId ∧ r.day = day then r.bytes else 0) +
        heldOn userId day (outstanding.erase r) =
      heldOn userId day outstanding :=
  List.sum_map_erase (fun r => if r.userId = userId ∧ r.day = day then r.bytes else 0) hmem

theorem heldOn_eq_zero {outstanding : List Reservation} {day : Day}
    (h : ∀ r ∈ outstanding, r.day ≠ day) (userId : Uuid) : heldOn userId day outstanding = 0 := by
  apply List.sum_eq_zero
  intro bytes hbytes
  obtain ⟨r, hr, rfl⟩ := List.mem_map.mp hbytes
  simp [h r hr]

theorem utcDayOf_mono {earlier later : Instant} (h : earlier ≤ later) :
    utcDayOf earlier ≤ utcDayOf later :=
  Int.ediv_le_ediv (by decide) h

/-- The counters of a new day start at zero, and nothing is reserved on it yet. -/
theorem sound_rollover {ledger : UploadLedger} (hsound : ledger.Sound) {now : Instant}
    (hnow : ledger.now ≤ now) :
    Sound ⟨ledger.quota.rollover now, now, ledger.outstanding⟩ := by
  have hday : ∀ day ∈ ledger.quota.day, day ≤ utcDayOf now := fun day h =>
    (hsound.clocked day h).trans (utcDayOf_mono hnow)
  refine ⟨fun userId day => ?_, fun userId day h => ?_, fun r hr => ?_, fun day h => ?_⟩
  · simpa using hsound.bounded userId day
  · obtain rfl : utcDayOf now = day := by simpa using h
    rw [UploadQuota.rollover_byUser]
    split_ifs with hsame
    · exact hsound.covered userId _ hsame.symm
    · refine (heldOn_eq_zero (fun r hr hrday => hsame ?_) userId).le
      obtain ⟨today, htoday, hle⟩ := hsound.past r hr
      have := hday today htoday
      obtain rfl : today = utcDayOf now := by
        unfold Day at *
        omega
      exact htoday.symm
  · obtain ⟨today, htoday, hle⟩ := hsound.past r hr
    exact ⟨utcDayOf now, by simp, hle.trans (hday today htoday)⟩
  · obtain rfl : utcDayOf now = day := by simpa using h
    exact le_rfl

theorem sound_reserve {ledger : UploadLedger} (hsound : ledger.Sound) {userId : Uuid}
    {bytes : ℕ} {now : Instant} (hnow : ledger.now ≤ now) :
    (ledger.step ⟨now, .reserve userId bytes⟩).Sound := by
  have hrolled := sound_rollover hsound hnow
  simp only [step, UploadQuota.reserve]
  split_ifs with hfull
  · exact hrolled
  refine ⟨fun other day => ?_, fun other day h => ?_, fun r hr => ?_, fun day h => ?_⟩
  · have hbounded := hrolled.bounded other day
    have hcovered := hrolled.covered userId (utcDayOf now) (by simp)
    dsimp only at hbounded hcovered ⊢
    rw [heldOn_cons]
    dsimp only
    split_ifs with hsame
    · obtain ⟨rfl, rfl⟩ := hsame
      omega
    · omega
  · have hcovered := hrolled.covered other day h
    obtain rfl : utcDayOf now = day := by simpa using h
    rw [heldOn_cons]
    by_cases hsame : userId = other
    · subst hsame
      simp only [and_self, if_true, Function.update_self] at hcovered ⊢
      omega
    · simpa [hsame, Function.update_of_ne (Ne.symm hsame)] using hcovered
  · rcases List.mem_cons.mp hr with rfl | hr
    · exact ⟨utcDayOf now, by simp, le_rfl⟩
    · exact hrolled.past r hr
  · exact hrolled.clocked day h

theorem sound_release {ledger : UploadLedger} (hsound : ledger.Sound) {r : Reservation}
    {now : Instant} (hnow : ledger.now ≤ now) (hmem : r ∈ ledger.outstanding)
    (hsettles : ledger.SettlesInTime ⟨now, .release r⟩) :
    (ledger.step ⟨now, .release r⟩).Sound := by
  have hrolled := sound_rollover hsound hnow
  refine ⟨fun other day => ?_, fun other day h => ?_, fun s hs => ?_, fun day h => ?_⟩
  · have hbounded := hrolled.bounded other day
    have herase := heldOn_erase hmem other day
    simp only [step, UploadQuota.release] at hbounded ⊢
    omega
  · have hcovered := hrolled.covered other day h
    have herase := heldOn_erase hmem other day
    obtain rfl : utcDayOf now = day := by simpa [step, UploadQuota.release] using h
    simp only [step, UploadQuota.release] at hcovered ⊢
    by_cases hsame : other = r.userId
    · subst hsame
      rw [Function.update_self]
      -- A refund of an earlier day is harmless only where it takes nothing.
      rcases hsettles r rfl with hday | hbytes | hzero
      · rw [if_pos ⟨rfl, hday⟩] at herase
        omega
      · rw [hbytes]
        omega
      · dsimp only at hzero
        omega
    · rw [Function.update_of_ne hsame]
      omega
  · exact hrolled.past s (List.mem_of_mem_erase hs)
  · exact hrolled.clocked day h

theorem sound_step {ledger : UploadLedger} (hsound : ledger.Sound) {call : QuotaCall}
    (hadmissible : ledger.Admissible call) (hsettles : ledger.SettlesInTime call) :
    (ledger.step call).Sound := by
  obtain ⟨now, request⟩ := call
  obtain ⟨hnow, hheld⟩ := hadmissible
  cases request with
  | reserve userId bytes => exact sound_reserve hsound hnow
  | release r => exact sound_release hsound hnow (hheld r rfl) hsettles

theorem sound_booted (limitBytes : ℕ) (start : Instant) : (booted limitBytes start).Sound where
  bounded := by simp [booted, heldOn]
  covered := by simp [booted]
  past := by simp [booted]
  clocked := by simp [booted]

@[simp] theorem step_limitBytes (ledger : UploadLedger) (call : QuotaCall) :
    (ledger.step call).quota.limitBytes = ledger.quota.limitBytes := by
  obtain ⟨now, request⟩ := call
  cases request with
  | reserve userId bytes =>
    simp only [step, UploadQuota.reserve]
    split_ifs <;> simp
  | release r => simp [step, UploadQuota.release]

/-- Where every release comes on the day of its reservation, or finds nothing to take bytes
from, no user holds more than the limit of any day. -/
theorem daily_quota {limitBytes : ℕ} {start : Instant} {calls : List QuotaCall}
    (h : Admitted step (fun ledger call => ledger.Admissible call ∧ ledger.SettlesInTime call)
      (booted limitBytes start) calls) (userId : Uuid) (day : Day) :
    heldOn userId day (runAll step (booted limitBytes start) calls).outstanding ≤ limitBytes := by
  have hrun := runAll_induction (I := fun ledger : UploadLedger =>
      ledger.Sound ∧ ledger.quota.limitBytes = limitBytes)
    (fun ledger call hi hcall =>
      ⟨sound_step hi.1 hcall.1 hcall.2, (step_limitBytes ledger call).trans hi.2⟩)
    ⟨sound_booted limitBytes start, rfl⟩ h
  exact (hrun.1.bounded userId day).trans_eq hrun.2

instance (ledger : UploadLedger) (call : QuotaCall) : Decidable (ledger.Admissible call) :=
  match call with
  | ⟨now, .reserve userId bytes⟩ =>
      decidable_of_iff (ledger.now ≤ now) (by simp [Admissible])
  | ⟨now, .release r⟩ =>
      decidable_of_iff (ledger.now ≤ now ∧ r ∈ ledger.outstanding) (by simp [Admissible])

instance (ledger : UploadLedger) (call : QuotaCall) : Decidable (ledger.SettlesInTime call) :=
  match call with
  | ⟨now, .reserve userId bytes⟩ => .isTrue (by simp [SettlesInTime])
  | ⟨now, .release r⟩ =>
      decidable_of_iff (r.day = utcDayOf now ∨ r.bytes = 0 ∨
        (ledger.quota.rollover now).byUser r.userId = 0) (by simp [SettlesInTime])

/-- An upload fails on the day of its reservation; the next day has its own limit. -/
def settledDays : List QuotaCall :=
  [⟨0, .reserve 1 60⟩, ⟨5, .release ⟨1, 60, 0⟩⟩, ⟨9, .reserve 1 100⟩, ⟨dayMs, .reserve 1 100⟩]

theorem daily_quota_settled :
    Admitted step (fun ledger call => ledger.Admissible call ∧ ledger.SettlesInTime call)
        (booted 100 0) settledDays ∧
      heldOn 1 0 (runAll step (booted 100 0) settledDays).outstanding ≤ 100 :=
  have h : Admitted step (fun ledger call => ledger.Admissible call ∧ ledger.SettlesInTime call)
      (booted 100 0) settledDays := by decide +kernel
  ⟨h, daily_quota h 1 0⟩

/-- An upload begins before midnight and fails after it. -/
def lateRefund : List QuotaCall :=
  [⟨0, .reserve 1 60⟩, ⟨dayMs, .reserve 1 100⟩, ⟨dayMs, .release ⟨1, 60, 0⟩⟩,
    ⟨dayMs, .reserve 1 60⟩]

/-- The refund of the day before makes room for 160 bytes on a day that allows 100. -/
theorem late_refund_overruns :
    ¬ ∀ (limitBytes : ℕ) (start : Instant) (calls : List QuotaCall),
      Admitted step Admissible (booted limitBytes start) calls → ∀ userId day,
        heldOn userId day (runAll step (booted limitBytes start) calls).outstanding ≤ limitBytes := by
  intro h
  have hoverrun := h 100 0 lateRefund (by decide +kernel) 1 1
  exact absurd hoverrun (by decide +kernel)

end UploadLedger
end AiKanban.Server
