import AiKanban.Services.CardLifecycle
import AiKanban.Transitions.Runs

/-!
# The daily upload quota

In-memory counters, one for each user, of the current UTC day; an upload reserves its bytes
first and gives them back when it fails.
-/
namespace AiKanban.Server

open Domain Transitions
open Services.CardService (utcDayOf)

/-- `byUser` is zero for a user the map does not hold; `day` is `none` before the first call. -/
structure UploadQuota where
  limitBytes : ℕ
  day : Option Day := none
  byUser : Uuid → ℕ := fun _ => 0

namespace UploadQuota

def rollover (now : Instant) (quota : UploadQuota) : UploadQuota :=
  let today := some (utcDayOf now)
  if today ≠ quota.day then { quota with day := today, byUser := fun _ => 0 } else quota

/-- Checks and counts in one synchronous call. -/
def reserve (now : Instant) (userId : Uuid) (bytes : ℕ) (quota : UploadQuota) :
    Bool × UploadQuota :=
  let rolled := quota.rollover now
  let used := rolled.byUser userId
  if rolled.limitBytes < used + bytes then (false, rolled)
  else (true, { rolled with byUser := Function.update rolled.byUser userId (used + bytes) })

/-- Refunds a reservation after a failed upload, clamped at zero. -/
def release (now : Instant) (userId : Uuid) (bytes : ℕ) (quota : UploadQuota) : UploadQuota :=
  let rolled := quota.rollover now
  { rolled with byUser := Function.update rolled.byUser userId (rolled.byUser userId - bytes) }

@[simp] theorem rollover_day (now : Instant) (quota : UploadQuota) :
    (quota.rollover now).day = some (utcDayOf now) := by
  by_cases h : some (utcDayOf now) = quota.day <;> simp [rollover, h]

@[simp] theorem rollover_limitBytes (now : Instant) (quota : UploadQuota) :
    (quota.rollover now).limitBytes = quota.limitBytes := by
  by_cases h : some (utcDayOf now) = quota.day <;> simp [rollover, h]

theorem rollover_byUser (now : Instant) (quota : UploadQuota) (userId : Uuid) :
    (quota.rollover now).byUser userId =
      if some (utcDayOf now) = quota.day then quota.byUser userId else 0 := by
  by_cases h : some (utcDayOf now) = quota.day <;> simp [rollover, h]

end UploadQuota

/-- A successful reservation that is not settled yet, on the day it was counted. -/
structure Reservation where
  userId : Uuid
  bytes : ℕ
  day : Day
  deriving DecidableEq

/-- What a user holds of one day. -/
def heldOn (userId : Uuid) (day : Day) (outstanding : List Reservation) : ℕ :=
  (outstanding.map fun r => if r.userId = userId ∧ r.day = day then r.bytes else 0).sum

/-- The quota beside the reservations its callers hold. -/
structure UploadLedger where
  quota : UploadQuota
  now : Instant
  outstanding : List Reservation := []

inductive QuotaRequest where
  | reserve (userId : Uuid) (bytes : ℕ)
  | release (reservation : Reservation)
  deriving DecidableEq

/-- A request at the time the clock shows. -/
structure QuotaCall where
  now : Instant
  request : QuotaRequest
  deriving DecidableEq

namespace UploadLedger

/-- A booted server. -/
def booted (limitBytes : ℕ) (now : Instant) : UploadLedger := ⟨⟨limitBytes, none, fun _ => 0⟩, now, []⟩

def step (ledger : UploadLedger) (call : QuotaCall) : UploadLedger :=
  match call.request with
  | .reserve userId bytes =>
      match ledger.quota.reserve call.now userId bytes with
      | (true, quota) =>
          ⟨quota, call.now, ⟨userId, bytes, utcDayOf call.now⟩ :: ledger.outstanding⟩
      | (false, quota) => ⟨quota, call.now, ledger.outstanding⟩
  | .release reservation =>
      ⟨ledger.quota.release call.now reservation.userId reservation.bytes, call.now,
        ledger.outstanding.erase reservation⟩

/-- The clock does not go back, and a release settles a reservation that is held. -/
def Admissible (ledger : UploadLedger) (call : QuotaCall) : Prop :=
  ledger.now ≤ call.now ∧ ∀ reservation, call.request = .release reservation →
    reservation ∈ ledger.outstanding

end UploadLedger
end AiKanban.Server
