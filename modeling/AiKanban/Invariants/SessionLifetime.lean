import AiKanban.Effects.Roles
import AiKanban.Server.Authentication
import AiKanban.Transitions.Runs

/-!
# The lifetime of a session

However the calls are spaced, a session ends seven days after the last accepted call and thirty
days after its creation, and not before while the calls keep coming.
-/
namespace AiKanban.Invariants

open Db Domain Effects Relational Server Services Transactions Transitions
open AuthService

section touches

variable {now : Instant} {session : Session}

/-- The row after an accepted call. -/
def touched (now : Instant) (session : Session) : Session :=
  if sessionTouchThrottleMs ≤ now - session.lastSeenAt then
    { session with lastSeenAt := now, expiresAt := foldedExpiry session.createdAt now }
  else session

theorem touched_userId : (touched now session).userId = session.userId := by
  unfold touched
  split_ifs <;> rfl

theorem touched_createdAt : (touched now session).createdAt = session.createdAt := by
  unfold touched
  split_ifs <;> rfl

/-- The expiry stays folded from the last touch. -/
theorem touched_expiresAt
    (h : session.expiresAt = foldedExpiry session.createdAt session.lastSeenAt) :
    (touched now session).expiresAt =
      foldedExpiry session.createdAt (touched now session).lastSeenAt := by
  unfold touched
  split_ifs
  · rfl
  · exact h

theorem runs_touch {idHash : String} {now expiresAt : Instant} {u : Unit}
    {w w' : World Store Tick}
    (h : Runs (SessionRepository.touch idHash now expiresAt) w u w') :
    w'.store.users = w.store.users ∧ w'.store.sessions.find? idHash =
      (w.store.sessions.find? idHash).map fun r => { r with lastSeenAt := now, expiresAt } := by
  obtain rfl := runs_modifyWhere_iff.mp h
  refine ⟨rfl, ?_⟩
  have hrows := Table.rows_foldl_updateWhere
    (f := fun r : Session => { r with lastSeenAt := now, expiresAt }) (fun _ => rfl)
    (fun _ _ => rfl) w.store.sessions fun r => r.id == idHash
  refine (congrArg (List.find? fun r : Session => decide (Row.key r = idHash)) hrows).trans ?_
  rw [List.find?_map]
  have hsame : ((fun r : Session => decide (Row.key r = idHash)) ∘ fun x : Session =>
      if (x.id == idHash) = true then { x with lastSeenAt := now, expiresAt } else x) =
        fun r => decide (Row.key r = idHash) := by
    funext x
    simp only [Function.comp_apply]
    split_ifs
    · rfl
    · rfl
  rw [hsame, Table.find?]
  cases hfound : w.store.sessions.rows.find? fun r => decide (Row.key r = idHash) with
  | none => rfl
  | some r =>
    have hid : r.id = idHash := Table.find?_key hfound
    simp [hid]

end touches

section platform

variable [AuthPlatform]

/-- A call with the cookie of the session, or anything else that happens to the store. -/
inductive SessionEvent where
  | call (now : Instant)
  | elsewhere (store : Store)

/-- The world, with the last call and the last accepted one (the creation at first), and whether
the calls have come closer than seven days less five minutes. -/
structure Watched where
  world : World Store Tick
  lastCall : Instant
  lastAccepted : Instant
  close : Bool

def Watched.step (raw : String) (x : Watched) : SessionEvent → Watched
  | .call now =>
      let outcome := authenticate raw now x.world
      { world := outcome.2
        lastCall := now
        lastAccepted := if outcome.1.isSome then now else x.lastAccepted
        close := x.close && decide (now < x.lastCall + sessionIdleMs - sessionTouchThrottleMs) }
  | .elsewhere store => { x with world := x.world.withStore store }

def ActiveUser (s : Store) (userId : Uuid) : Prop :=
  ∃ row, s.users.find? userId = some row ∧ row.user.isActive = true

/-- Calls come in order; nothing else revokes the session or deactivates its user. -/
def Watched.Admits (raw : String) (userId : Uuid) (x : Watched) : SessionEvent → Prop
  | .call now => x.lastCall ≤ now
  | .elsewhere store =>
      store.sessions.find? (sessionHashOf raw) = x.world.store.sessions.find? (sessionHashOf raw) ∧
        ActiveUser store userId

section calls

variable {w : World Store Tick} {raw : String} {now : Instant} {session : Session}
  {row : UserCredentials}

theorem runs_resolve_closed (hsession : w.store.sessions.find? (sessionHashOf raw) = some session)
    (hclosed : session.expiresAt ≤ now) : Runs (resolve (sessionHashOf raw) now) w none w := by
  refine runs_bind_iff.mpr ⟨_, w, runs_selectKey_iff.mpr ⟨rfl, rfl⟩, ?_⟩
  have htable : (HasTable.table w.store : Table Session).find? (sessionHashOf raw) = some session :=
    hsession
  rw [htable]
  simp only [if_pos hclosed]
  exact runs_pure_iff.mpr ⟨rfl, rfl⟩

theorem runs_resolve_open (hsession : w.store.sessions.find? (sessionHashOf raw) = some session)
    (hopen : now < session.expiresAt) (hrow : w.store.users.find? session.userId = some row) :
    Runs (resolve (sessionHashOf raw) now) w (some (session, row.user)) w := by
  refine runs_bind_iff.mpr ⟨_, w, runs_selectKey_iff.mpr ⟨rfl, rfl⟩, ?_⟩
  have htable : (HasTable.table w.store : Table Session).find? (sessionHashOf raw) = some session :=
    hsession
  rw [htable]
  simp only [if_neg (not_le.mpr hopen)]
  refine runs_bind_iff.mpr ⟨_, w, runs_read_iff.mpr ⟨rfl, rfl⟩, runs_pure_iff.mpr ⟨?_, rfl⟩⟩
  rw [hrow]
  rfl

theorem authenticate_closed (hsession : w.store.sessions.find? (sessionHashOf raw) = some session)
    (hclosed : session.expiresAt ≤ now) : authenticate raw now w = (none, w) := by
  unfold authenticate
  rw [transact_ok_iff.mpr (runs_resolve_closed hsession hclosed)]

/-- An accepted call gives the user and, when it is time, touches the row. -/
theorem authenticate_open (hsession : w.store.sessions.find? (sessionHashOf raw) = some session)
    (hopen : now < session.expiresAt) (hrow : w.store.users.find? session.userId = some row)
    (hactive : row.user.isActive = true) :
    (authenticate raw now w).1 = some row.user ∧
      (authenticate raw now w).2.store.users = w.store.users ∧
      (authenticate raw now w).2.store.sessions.find? (sessionHashOf raw) =
        some (touched now session) := by
  have hresolved := transact_ok_iff.mpr (runs_resolve_open hsession hopen hrow)
  unfold authenticate touched
  rw [hresolved]
  simp only [hactive, if_true, followUp, Bool.true_eq_false, if_false]
  refine ⟨trivial, ?_⟩
  split_ifs with hdue
  · obtain ⟨w', htouch⟩ : ∃ w', Runs (SessionRepository.touch (sessionHashOf raw) now
        (foldedExpiry session.createdAt now)) w () w' := ⟨_, runs_modifyWhere_iff.mpr rfl⟩
    obtain ⟨husers, hfound⟩ := runs_touch htouch
    rw [hsession] at hfound
    rw [transact_ok_iff.mpr htouch]
    exact ⟨husers, hfound⟩
  · exact ⟨rfl, hsession⟩

end calls

section lifetime

variable {raw : String} {userId : Uuid} {createdAt : Instant} {x : Watched}

/-- The row while nothing revokes it: its expiry is folded from its last touch, which is less
than five minutes before the last accepted call. -/
structure Alive (raw : String) (userId : Uuid) (createdAt : Instant) (x : Watched) : Prop where
  row : ∃ session, x.world.store.sessions.find? (sessionHashOf raw) = some session ∧
    session.userId = userId ∧ session.createdAt = createdAt ∧
    session.expiresAt = foldedExpiry createdAt session.lastSeenAt ∧
    session.lastSeenAt ≤ x.lastAccepted ∧
    x.lastAccepted < session.lastSeenAt + sessionTouchThrottleMs
  active : ActiveUser x.world.store userId
  order : x.lastAccepted ≤ x.lastCall
  accepted : x.close = true → x.lastCall < createdAt + sessionAbsoluteMs →
    x.lastAccepted = x.lastCall

/-- When a session is accepted. -/
theorem Alive.call (h : Alive raw userId createdAt x) (now : Instant) :
    (createdAt + sessionAbsoluteMs ≤ now → (authenticate raw now x.world).1 = none) ∧
    (x.lastAccepted + sessionIdleMs ≤ now → (authenticate raw now x.world).1 = none) ∧
    (x.close = true → now < x.lastCall + sessionIdleMs - sessionTouchThrottleMs →
      x.lastCall ≤ now → now < createdAt + sessionAbsoluteMs →
        ∃ user, (authenticate raw now x.world).1 = some user ∧ user.id = userId) := by
  obtain ⟨session, hfound, huser, -, hexpires, hseen, hnear⟩ := h.row
  obtain ⟨row, hrow, hactive⟩ := h.active
  have hfolded : session.expiresAt ≤ session.lastSeenAt + sessionIdleMs ∧
      session.expiresAt ≤ createdAt + sessionAbsoluteMs := by
    rw [hexpires]
    exact ⟨min_le_left _ _, min_le_right _ _⟩
  refine ⟨fun hlate => ?_, fun hidle => ?_, fun hclose hgap hnow habsolute => ?_⟩
  · rw [authenticate_closed hfound (by linarith)]
  · rw [authenticate_closed hfound (by linarith)]
  · have haccepted := h.accepted hclose (by linarith)
    have hopen : now < session.expiresAt := by
      rw [hexpires, foldedExpiry, lt_min_iff]
      constructor
      · linarith
      · linarith
    obtain ⟨hresult, -⟩ := authenticate_open hfound hopen (huser ▸ hrow) hactive
    exact ⟨row.user, hresult, Table.find?_key hrow⟩

theorem Alive.step (h : Alive raw userId createdAt x) {event : SessionEvent}
    (hadmits : x.Admits raw userId event) : Alive raw userId createdAt (x.step raw event) := by
  cases event with
  | elsewhere store =>
    obtain ⟨hsame, hactive⟩ := hadmits
    obtain ⟨session, hfound, hrest⟩ := h.row
    exact ⟨⟨session, hsame.trans hfound, hrest⟩, hactive, h.order, h.accepted⟩
  | call now =>
    obtain ⟨-, -, haccept⟩ := h.call now
    obtain ⟨session, hfound, rfl, rfl, hexpires, hseen, hnear⟩ := h.row
    obtain ⟨row, hrow, hactive⟩ := h.active
    have hnow : x.lastCall ≤ now := hadmits
    have horder := h.order
    by_cases hopen : now < session.expiresAt
    · obtain ⟨hresult, husers, hnext⟩ := authenticate_open hfound hopen hrow hactive
      have haccepted : (x.step raw (.call now)).lastAccepted = now := by
        simp only [Watched.step, hresult, Option.isSome_some, if_true]
      have hpositive : 0 < sessionTouchThrottleMs := by decide
      refine ⟨⟨_, hnext, touched_userId, touched_createdAt, touched_expiresAt hexpires, ?_, ?_⟩,
        ⟨row, husers ▸ hrow, hactive⟩, haccepted.le, fun _ _ => haccepted⟩
      · rw [haccepted, touched]
        split_ifs
        · exact le_rfl
        · linarith
      · rw [haccepted, touched]
        split_ifs with hdue
        · linarith
        · linarith
    · have hclosed := authenticate_closed hfound (not_lt.mp hopen)
      have hkept : (x.step raw (.call now)).lastAccepted = x.lastAccepted ∧
          (x.step raw (.call now)).world = x.world := by
        simp [Watched.step, hclosed]
      refine ⟨⟨session, ?_, rfl, rfl, hexpires, ?_, ?_⟩, ?_, ?_, fun hclose habsolute => ?_⟩
      · rwa [hkept.2]
      · rwa [hkept.1]
      · rwa [hkept.1]
      · rw [hkept.2]
        exact ⟨row, hrow, hactive⟩
      · rw [hkept.1]
        exact horder.trans hnow
      · -- A call that came in time would have been accepted.
        simp only [Watched.step, Bool.and_eq_true, decide_eq_true_eq] at hclose
        obtain ⟨user, hresult, -⟩ := haccept hclose.1 hclose.2 hnow habsolute
        rw [hclosed] at hresult
        cases hresult

/-- The bounds of a session's life. -/
theorem session_lifetime {w : World Store Tick} (events : List SessionEvent)
    (hsession : w.store.sessions.find? (sessionHashOf raw) = some (mintSession userId raw createdAt))
    (hactive : ActiveUser w.store userId)
    (hadmitted : Admitted (Watched.step raw) (Watched.Admits raw userId)
      ⟨w, createdAt, createdAt, true⟩ events) :
    let x := runAll (Watched.step raw) ⟨w, createdAt, createdAt, true⟩ events
    ∀ now, x.lastCall ≤ now →
      (createdAt + sessionAbsoluteMs ≤ now → (authenticate raw now x.world).1 = none) ∧
      (x.lastAccepted + sessionIdleMs ≤ now → (authenticate raw now x.world).1 = none) ∧
      (x.close = true → now < x.lastCall + sessionIdleMs - sessionTouchThrottleMs →
        now < createdAt + sessionAbsoluteMs →
          ∃ user, (authenticate raw now x.world).1 = some user ∧ user.id = userId) := by
  intro x now hnow
  have halive : Alive raw userId createdAt x := by
    refine runAll_induction (fun x event h hadmits => h.step hadmits) ?_ hadmitted
    refine ⟨⟨_, hsession, rfl, rfl, rfl, le_rfl, ?_⟩, hactive, le_rfl, fun _ _ => rfl⟩
    change createdAt < createdAt + sessionTouchThrottleMs
    have hpositive : 0 < sessionTouchThrottleMs := by decide
    linarith
  obtain ⟨hlate, hidle, haccept⟩ := halive.call now
  exact ⟨hlate, hidle, fun hclose hgap => haccept hclose hgap hnow⟩

end lifetime

end platform

/-- A freshly seeded database with a session of the automation user. -/
def sampleSignedIn : World Store Tick :=
  let w := freshlySeeded sampleTicks
  w.withStore { w.store with
    sessions := Table.empty.insert (@mintSession sampleAuthPlatform 102 "cookie" 0) }

/-- A call after a day keeps the session open for one six days after its creation. -/
theorem session_lifetime_sample :
    let x := runAll (@Watched.step sampleAuthPlatform "cookie") ⟨sampleSignedIn, 0, 0, true⟩
      [.elsewhere sampleSignedIn.store, .call 86400000]
    ∃ user, (@authenticate sampleAuthPlatform "cookie" 518400000 x.world).1 = some user ∧
      user.id = 102 := by
  have hsystem : (sampleSignedIn.store.users.find? 102).any (·.user.isActive) = true := by
    decide +kernel
  have hactive : ActiveUser sampleSignedIn.store 102 := (Option.any_eq_true ..).mp hsystem
  have hadmitted : Admitted (@Watched.step sampleAuthPlatform "cookie")
      (@Watched.Admits sampleAuthPlatform "cookie" 102) ⟨sampleSignedIn, 0, 0, true⟩
        [.elsewhere sampleSignedIn.store, .call 86400000] :=
    ⟨⟨rfl, hactive⟩, (by decide : (0 : ℤ) ≤ 86400000), trivial⟩
  obtain ⟨-, -, haccepted⟩ := @session_lifetime sampleAuthPlatform "cookie" 102 0 sampleSignedIn _
    (by decide +kernel) hactive hadmitted 518400000 (by decide)
  exact haccepted (by decide) (by decide) (by decide)

end AiKanban.Invariants
