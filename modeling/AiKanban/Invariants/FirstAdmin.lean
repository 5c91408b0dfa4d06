import AiKanban.Application.Concurrency
import AiKanban.Db.Seed
import AiKanban.Server.SetupService

/-!
# First-boot setup at once

Each call counts the users in a snapshot of its own before it inserts one. Calls that count one
after the other commit one administrator; calls that count together may commit several.
-/
namespace AiKanban.Invariants

open Domain Db Relational Services Server Transactions

/-- The users that count for the setup. -/
def humanCount (systemUserId : Uuid) (s : Store) : ℕ :=
  (s.users.rows.filter fun row => row.user.id != systemUserId).length

/-- Where the automation user is there, a new account counts. -/
theorem humanCount_insert {systemUserId : Uuid} {s : Store} {row : UserCredentials}
    (hsystem : ∃ system ∈ s.users.rows, system.user.id = systemUserId)
    (haccepts : s.users.accepts row = true) :
    0 < humanCount systemUserId { s with users := s.users.insert row } := by
  have hne : row.user.id ≠ systemUserId := by
    rintro hid
    obtain ⟨system, hmem, hsystemId⟩ := hsystem
    have hnone := Table.find?_eq_none_iff.mp (Table.find?_of_accepts haccepts) system hmem
    exact hnone (hsystemId.trans hid.symm)
  unfold humanCount
  refine List.length_pos_of_mem (a := row) (List.mem_filter.mpr ⟨?_, by simpa using hne⟩)
  exact Table.mem_insert.mpr (.inr ⟨haccepts, rfl⟩)

/-- The progress of one call. -/
abbrev SetupSession := Session Store Write DomainError Tick LoginResult

/-- The call has committed its user. -/
def Won (session : SetupSession) : Prop := ∃ r log, session = .done (.ok r) log

instance : DecidablePred Won
  | .done (.ok r) log => .isTrue ⟨r, log, rfl⟩
  | .done (.error e) log => .isFalse fun ⟨_, _, h⟩ => by cases h
  | .active body log rest => .isFalse fun ⟨_, _, h⟩ => by cases h
  | .ready attempts => .isFalse fun ⟨_, _, h⟩ => by cases h

/-- The call has no open unit of work. -/
def Closed : SetupSession → Bool
  | .active _ _ _ => false
  | _ => true

theorem not_won_active {body : Tx LoginResult} {log : List Write} {rest : List (Tx LoginResult)} :
    ¬ Won (.active body log rest) := by
  rintro ⟨_, _, h⟩
  cases h

theorem not_won_error {e : DomainError} {log : List Write} : ¬ Won (.done (.error e) log) := by
  rintro ⟨_, _, h⟩
  cases h

section calls

variable [AuthPlatform] {κ : Type}

/-- The calls, none of them begun. -/
def setupCalls (systemUserId : Uuid) (calls : κ → SetupCall) (s : Store) (inputs : ℕ → Tick) :
    PgConfig κ LoginResult where
  committed := s
  sessions caller := .ready [SetupService.createFirstAdmin systemUserId (calls caller)]
  inputs := inputs
  drawn := 0

/-- The call has counted no user, and its unit of work is still open. -/
inductive Admitting (call : SetupCall) : SetupSession → Prop where
  | counted {user : User} {session : Domain.Session}
      (prepared : SetupService.prepare call = .ok (user, session)) :
      Admitting call (.active (SetupService.insertAdmin call user session) [] [])
  | inserted {user : User} {session : Domain.Session}
      (prepared : SetupService.prepare call = .ok (user, session)) :
      Admitting call (.active (do SessionRepository.create session; return ⟨user, call.rawSessionId⟩)
        [.users (.insert ⟨user, call.passwordHash⟩)] [])
  | signedIn {user : User} {session : Domain.Session}
      (prepared : SetupService.prepare call = .ok (user, session)) :
      Admitting call (.active (.pure ⟨user, call.rawSessionId⟩)
        [.users (.insert ⟨user, call.passwordHash⟩), .sessions (.insert session)] [])

/-- Whoever counts the users does so while no other call has counted none and is still open. -/
def CountsAlone (systemUserId : Uuid) (calls : κ → SetupCall) (c : PgConfig κ LoginResult)
    (caller : κ) : Prop :=
  c.sessions caller = .active (SetupService.createFirstAdmin systemUserId (calls caller)) [] [] →
    ∀ other, other ≠ caller → ¬ Admitting (calls other) (c.sessions other)

section stages

/-- All the states a call goes through. -/
inductive Stage (systemUserId : Uuid) (call : SetupCall) : SetupSession → Prop where
  | waiting : Stage systemUserId call (.ready [SetupService.createFirstAdmin systemUserId call])
  | begun : Stage systemUserId call (.active (SetupService.createFirstAdmin systemUserId call) [] [])
  | refused (e : DomainError) (log : List Write) :
      Stage systemUserId call (.active (.throw e) log [])
  | admitting {session : SetupSession} (h : Admitting call session) :
      Stage systemUserId call session
  | lost (e : DomainError) : Stage systemUserId call (.done (.error e) [])
  | won (r : LoginResult) (log : List Write) : Stage systemUserId call (.done (.ok r) log)

variable {systemUserId : Uuid} {call : SetupCall}

theorem not_admitting_throw {e : DomainError} {log : List Write} {rest : List (Tx LoginResult)} :
    ¬ Admitting call (.active (.throw e) log rest) := by
  intro h
  generalize hbody : Program.throw e = body at h
  cases h <;> cases hbody

/-- A call that is yet to count has not counted. -/
theorem not_admitting_begun :
    ¬ Admitting call (.active (SetupService.createFirstAdmin systemUserId call) [] []) := by
  intro h
  generalize hbody : SetupService.createFirstAdmin systemUserId call = body at h
  cases h with
  | counted hprepared =>
    unfold SetupService.createFirstAdmin at hbody
    rw [hprepared] at hbody
    have heffect := congrArg (fun p : Tx LoginResult => match p with
      | .stmt effect _ => effect {}
      | _ => .ok []) hbody
    have hrow : (.ok [] : Except DomainError (List Write)) =
        .ok [.users (.insert ⟨_, call.passwordHash⟩)] := heffect
    cases hrow

theorem Admitting.ne_done {r : Except DomainError LoginResult} {log : List Write} :
    ¬ Admitting call (.done r log) := by
  intro h
  cases h

theorem Admitting.ne_ready {attempts : List (Tx LoginResult)} :
    ¬ Admitting call (.ready attempts) := by
  intro h
  cases h

end stages

section booting

variable {systemUserId : Uuid} {calls : κ → SetupCall} {c : PgConfig κ LoginResult}

/-- What holds between any two statements of the calls. -/
structure Booting (systemUserId : Uuid) (calls : κ → SetupCall) (c : PgConfig κ LoginResult) :
    Prop where
  system : ∃ row ∈ c.committed.users.rows, row.user.id = systemUserId
  stage : ∀ k, Stage systemUserId (calls k) (c.sessions k)
  alone : ∀ j k, Admitting (calls j) (c.sessions j) → Admitting (calls k) (c.sessions k) → j = k
  empty : ∀ k, Admitting (calls k) (c.sessions k) → humanCount systemUserId c.committed = 0 ∧
    ∀ row, .users (.insert row) ∈ (c.sessions k).held → c.committed.users.accepts row = true
  full : ∀ k, Won (c.sessions k) → 0 < humanCount systemUserId c.committed
  unique : ∀ j k, Won (c.sessions j) → Won (c.sessions k) → j = k

theorem booting_setupCalls {s : Store} (hsystem : ∃ row ∈ s.users.rows, row.user.id = systemUserId)
    (inputs : ℕ → Tick) : Booting systemUserId calls (setupCalls systemUserId calls s inputs) where
  system := hsystem
  stage := fun _ => .waiting
  alone := fun _ _ hj => absurd hj Admitting.ne_ready
  empty := fun _ hk => absurd hk Admitting.ne_ready
  full := by
    rintro k ⟨_, _, h⟩
    cases h
  unique := by
    rintro j k ⟨_, _, h⟩
    cases h

theorem countsAlone_of_closed {caller : κ}
    (h : ∀ other, other ≠ caller → Closed (c.sessions other) = true) :
    CountsAlone systemUserId calls c caller := by
  intro _ other hother hadmits
  have hclosed := h other hother
  generalize c.sessions other = session at hadmits hclosed
  cases hadmits <;> cases hclosed

variable [DecidableEq κ]

/-- A turn that commits nothing keeps it, when the call that counts none is alone. -/
theorem Booting.set (h : Booting systemUserId calls c) {k : κ} {session : SetupSession}
    (hstage : Stage systemUserId (calls k) session) (hwon : ¬ Won session)
    (halone : Admitting (calls k) session → ∀ j, j ≠ k → ¬ Admitting (calls j) (c.sessions j))
    (hempty : Admitting (calls k) session → humanCount systemUserId c.committed = 0 ∧
      ∀ row, .users (.insert row) ∈ session.held → c.committed.users.accepts row = true) :
    Booting systemUserId calls (c.set k session) := by
  have hself : (c.set k session).sessions k = session := Config.set_sessions_self ..
  have hother : ∀ j, j ≠ k → (c.set k session).sessions j = c.sessions j :=
    fun j hj => Config.set_sessions_ne c hj session
  refine ⟨h.system, fun j => ?_, fun i j hi hj => ?_, fun j hj => ?_, fun j hj => ?_,
    fun i j hi hj => ?_⟩
  · by_cases hjk : j = k
    · subst hjk
      rwa [hself]
    · rw [hother j hjk]
      exact h.stage j
  · by_cases hik : i = k
    · subst hik
      by_contra hne
      rw [hself] at hi
      rw [hother j (Ne.symm hne)] at hj
      exact halone hi j (Ne.symm hne) hj
    · rw [hother i hik] at hi
      by_cases hjk : j = k
      · subst hjk
        rw [hself] at hj
        exact absurd hi (halone hj i hik)
      · rw [hother j hjk] at hj
        exact h.alone i j hi hj
  · by_cases hjk : j = k
    · subst hjk
      rw [hself] at hj ⊢
      exact hempty hj
    · rw [hother j hjk] at hj ⊢
      exact h.empty j hj
  · by_cases hjk : j = k
    · subst hjk
      rw [hself] at hj
      exact absurd hj hwon
    · rw [hother j hjk] at hj
      exact h.full j hj
  · by_cases hik : i = k
    · subst hik
      rw [hself] at hi
      exact absurd hi hwon
    · by_cases hjk : j = k
      · subst hjk
        rw [hself] at hj
        exact absurd hj hwon
      · rw [hother i hik] at hi
        rw [hother j hjk] at hj
        exact h.unique i j hi hj

/-- A call that gives up commits nothing. -/
theorem Booting.lose (h : Booting systemUserId calls c) (k : κ) (e : DomainError) :
    Booting systemUserId calls (c.set k (.done (.error e) [])) :=
  h.set (.lost e) not_won_error (fun hadmits => absurd hadmits Admitting.ne_done)
    fun hadmits => absurd hadmits Admitting.ne_done

variable [Fintype κ]

/-- The count: with users there the call is refused, without it goes on alone. -/
theorem Booting.count (h : Booting systemUserId calls c) {k : κ}
    (hk : c.sessions k = .active (SetupService.createFirstAdmin systemUserId (calls k)) [] [])
    (halone : CountsAlone systemUserId calls c k) : Booting systemUserId calls (c.step k) := by
  cases hprepared : SetupService.prepare (calls k) with
  | error e =>
    have hthrow : c.sessions k = .active (.throw e) [] [] := by
      rw [hk, SetupService.createFirstAdmin, hprepared]
      rfl
    have hstep : c.step k = c.set k (.done (.error e) []) := by
      unfold Config.step
      rw [hthrow]
      rfl
    rw [hstep]
    exact h.lose k e
  | ok prepared =>
    obtain ⟨user, session⟩ := prepared
    have hstmt : c.sessions k = .active (.stmt (fun _ => .ok []) fun v => do
        Program.ensure (humanCount systemUserId v == 0) SetupService.setupAlreadyComplete
        SetupService.insertAdmin (calls k) user session) [] [] := by
      rw [hk, SetupService.createFirstAdmin, hprepared]
      rfl
    have hstep := Config.step_write hstmt rfl Config.not_blocked_nil
    rw [hstep]
    have hview : c.view [] = c.committed := rfl
    rw [hview]
    cases hcount : humanCount systemUserId c.committed == 0 with
    | false =>
      exact h.set (.refused _ _) not_won_active (fun hadmits => absurd hadmits not_admitting_throw)
        fun hadmits => absurd hadmits not_admitting_throw
    | true =>
      refine h.set (.admitting (.counted hprepared))
        not_won_active (fun _ => halone hk) fun _ => ⟨by simpa using hcount, ?_⟩
      simp [Session.held]

/-- The call that counts none goes on to commit its user, while nobody else commits. -/
theorem Booting.admit (h : Booting systemUserId calls c) {k : κ}
    (hadmits : Admitting (calls k) (c.sessions k)) : Booting systemUserId calls (c.step k) := by
  obtain ⟨hnone, haccepted⟩ := h.empty k hadmits
  have halone : ∀ j, j ≠ k → ¬ Admitting (calls j) (c.sessions j) :=
    fun j hj hother => hj (h.alone j k hother hadmits)
  generalize hk : c.sessions k = session at hadmits haccepted
  cases hadmits with
  | @counted user session hprepared =>
    rcases step_insertRow hk with hidle | ⟨e, hfail⟩ | ⟨haccepts, hwrite⟩
    · rwa [hidle]
    · rw [hfail]
      exact h.lose k e
    · rw [hwrite]
      refine h.set (.admitting (.inserted hprepared)) not_won_active (fun _ => halone) fun _ => ⟨hnone, ?_⟩
      intro row hrow
      simp only [Session.held, List.nil_append, List.mem_singleton] at hrow
      cases hrow
      exact haccepts
  | @inserted user session hprepared =>
    rcases step_insertRow hk with hidle | ⟨e, hfail⟩ | ⟨-, hwrite⟩
    · rwa [hidle]
    · rw [hfail]
      exact h.lose k e
    · rw [hwrite]
      refine h.set (.admitting (.signedIn hprepared)) not_won_active (fun _ => halone) fun _ => ⟨hnone, ?_⟩
      intro row hrow
      simp only [Session.held, List.mem_append, List.mem_singleton] at hrow
      rcases hrow with hrow | hrow
      · exact haccepted row (by simpa [Session.held] using hrow)
      · cases hrow
  | @signedIn user session hprepared =>
    have haccepts := haccepted ⟨user, (calls k).passwordHash⟩ (by simp [Session.held])
    have hfull := humanCount_insert h.system haccepts
    generalize hlog : [Write.users (.insert ⟨user, (calls k).passwordHash⟩),
      .sessions (.insert session)] = log at hk
    have hstore : replay c.committed log =
        { c.committed with
          users := c.committed.users.insert ⟨user, (calls k).passwordHash⟩
          sessions := c.committed.sessions.insert session } := by
      rw [← hlog]
      rfl
    have hstep := Config.step_commit hk
    rw [hstore] at hstep
    have hself : (c.step k).sessions k = .done (.ok ⟨user, (calls k).rawSessionId⟩) log := by
      rw [hstep]
      exact Config.set_sessions_self ..
    have hother : ∀ j, j ≠ k → (c.step k).sessions j = c.sessions j :=
      fun j hj => Config.step_sessions_ne c hj
    have hfull' : 0 < humanCount systemUserId (c.step k).committed := by
      rw [hstep]
      exact hfull
    have hclosed : ∀ j, ¬ Admitting (calls j) ((c.step k).sessions j) := by
      intro j hj
      by_cases hjk : j = k
      · subst hjk
        rw [hself] at hj
        exact Admitting.ne_done hj
      · rw [hother j hjk] at hj
        exact halone j hjk hj
    -- nobody had committed a user where none was counted
    have hfirst : ∀ j, Won ((c.step k).sessions j) → j = k := by
      intro j hj
      by_contra hjk
      rw [hother j hjk] at hj
      have hearlier := h.full j hj
      omega
    refine ⟨?_, fun j => ?_, fun j _ hj => absurd hj (hclosed j), fun j hj => absurd hj (hclosed j),
      fun _ _ => hfull', fun i j hi hj => (hfirst i hi).trans (hfirst j hj).symm⟩
    · obtain ⟨system, hmem, hid⟩ := h.system
      rw [hstep]
      exact ⟨system, Table.mem_insert.mpr (.inl hmem), hid⟩
    · by_cases hjk : j = k
      · subst hjk
        rw [hself]
        exact .won _ _
      · rw [hother j hjk]
        exact h.stage j

/-- Every turn keeps it, as long as whoever counts does so alone. -/
theorem Booting.step (h : Booting systemUserId calls c) {k : κ}
    (halone : CountsAlone systemUserId calls c k) : Booting systemUserId calls (c.step k) := by
  have hstage := h.stage k
  generalize hk : c.sessions k = session at hstage
  cases hstage with
  | waiting =>
    rw [Config.step_begin hk]
    exact h.set .begun not_won_active (fun hadmits => absurd hadmits not_admitting_begun)
      fun hadmits => absurd hadmits not_admitting_begun
  | begun => exact h.count hk halone
  | refused e log =>
    have hstep : c.step k = c.set k (.done (.error e) []) := by
      unfold Config.step
      rw [hk]
      rfl
    rw [hstep]
    exact h.lose k e
  | admitting hadmits => exact h.admit (hk ▸ hadmits)
  | lost e | won r log =>
    have hidle : c.step k = c := by
      unfold Config.step
      rw [hk]
    rwa [hidle]

/-- Where every call counts the users alone, at most one of any number of calls commits a user. -/
theorem one_first_admin {s : Store} (hsystem : ∃ row ∈ s.users.rows, row.user.id = systemUserId)
    (inputs : ℕ → Tick) (schedule : List κ)
    (halone : Config.Along (CountsAlone systemUserId calls) (setupCalls systemUserId calls s inputs)
      schedule) :
    let c := (setupCalls systemUserId calls s inputs).run schedule
    ∀ j k, Won (c.sessions j) → Won (c.sessions k) → j = k :=
  (Config.run_induction (fun _ _ h hcounts => h.step hcounts) schedule _
    (booting_setupCalls hsystem inputs) halone).unique

end booting

end calls

/-- Two calls with valid inputs and addresses of their own. -/
def sampleSetupCalls : Bool → SetupCall
  | false => {
      raw := { email := "Ana@example.com", displayName := "Ana", password := "correct horse battery" }
      passwordHash := "hash-a", now := 5, userId := 201, rawSessionId := "raw-a" }
  | true => {
      raw := { email := "bo@example.com", displayName := " Bo ", password := "staple of the first" }
      passwordHash := "hash-b", now := 6, userId := 202, rawSessionId := "raw-b" }

/-- Two calls that both count before either commits both create an administrator. -/
theorem two_first_admins : ¬ ∀ (calls : Bool → SetupCall) (schedule : List Bool),
    let c := (@setupCalls sampleAuthPlatform Bool 102 calls (freshlySeeded sampleTicks).store
      sampleTicks).run schedule
    ∀ j k, Won (c.sessions j) → Won (c.sessions k) → j = k := by
  intro h
  have hboth := h sampleSetupCalls
    [false, true, false, true, false, false, false, true, true, true] false true
  exact absurd (hboth (by decide +kernel) (by decide +kernel)) (by decide)

theorem one_first_admin_in_turn :
    let c := (@setupCalls sampleAuthPlatform Bool 102 sampleSetupCalls
      (freshlySeeded sampleTicks).store sampleTicks).run
        [false, false, false, false, false, true, true, true]
    Won (c.sessions false) ∧
      ∀ j k, Won (c.sessions j) → Won (c.sessions k) → j = k := by
  intro c
  refine ⟨by decide +kernel, @one_first_admin sampleAuthPlatform Bool 102 sampleSetupCalls _ _ _
    (by decide +kernel) sampleTicks _ ?_⟩
  refine Config.Along.mono (fun _ _ hclosed => @countsAlone_of_closed sampleAuthPlatform _ _ _ _ _ hclosed) ?_
  decide +kernel

end AiKanban.Invariants
