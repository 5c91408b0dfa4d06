import AiKanban.Server.LoginBackoff
import AiKanban.Transitions.Runs

/-!
# No burst of guesses

However the attempts on an account interleave, each check of a password waits for the delay that
the failures before it ask for.
-/
namespace AiKanban.Invariants

open Collections Domain Server Transitions KeyedQueue

section history

/-- The failures of an account since its last success. -/
def failuresSince (key : String) : List Outcome → ℕ
  | [] => 0
  | o :: rest =>
      if o.key = key then if o.succeeded then 0 else failuresSince key rest + 1
      else failuresSince key rest

def lastFailure (key : String) : List Outcome → Option Instant
  | [] => none
  | o :: rest => if o.key = key ∧ o.succeeded = false then some o.recordedAt else lastFailure key rest

/-- The entry that an account's history asks for. -/
def standing (key : String) : List Outcome → Option BackoffEntry
  | [] => none
  | o :: rest =>
      if o.key = key then
        if o.succeeded then none
        else some ⟨((standing key rest).map (·.failures)).getD 0 + 1, o.recordedAt⟩
      else standing key rest

variable {key : String} {outcomes : List Outcome}

theorem failuresSince_eq (key : String) (outcomes : List Outcome) :
    failuresSince key outcomes = ((standing key outcomes).map (·.failures)).getD 0 := by
  induction outcomes with
  | nil => rfl
  | cons o rest ih =>
    unfold failuresSince standing
    split_ifs
    · rfl
    · simp [ih]
    · exact ih

theorem lastFailure_of_standing {entry : BackoffEntry} (h : standing key outcomes = some entry) :
    lastFailure key outcomes = some entry.lastFailureAtMs := by
  induction outcomes with
  | nil => cases h
  | cons o rest ih =>
    unfold standing at h
    unfold lastFailure
    split_ifs at h with hkey hsucceeded
    · obtain rfl := Option.some.inj h
      rw [if_pos ⟨hkey, by simpa using hsucceeded⟩]
    · rw [if_neg fun hboth => hkey hboth.1]
      exact ih h

theorem lastFailure_mem {recordedAt : Instant} (h : lastFailure key outcomes = some recordedAt) :
    ∃ o ∈ outcomes, o.recordedAt = recordedAt := by
  induction outcomes with
  | nil => cases h
  | cons o rest ih =>
    unfold lastFailure at h
    split_ifs at h
    · exact ⟨o, List.mem_cons_self, Option.some.inj h⟩
    · obtain ⟨o', ho', heq⟩ := ih h
      exact ⟨o', List.mem_cons_of_mem _ ho', heq⟩

end history

section entries

variable (b : LoginBackoff) {key k : String} {now : Instant}

/-- Only the account itself, and one that gives way, feel a failure. -/
theorem get_recordFailureAt (h : b.evicted k ≠ some key) :
    (b.recordFailureAt k now).entries.get key =
      if key = k then some ⟨((b.entries.get key).map (·.failures)).getD 0 + 1, now⟩
      else b.entries.get key := by
  unfold LoginBackoff.recordFailureAt
  dsimp only
  rw [InsertionMap.get_set]
  by_cases hkey : key = k
  · rw [if_pos hkey, if_pos hkey, hkey]
  · rw [if_neg hkey, if_neg hkey]
    cases hevicted : b.evicted k with
    | none =>
      dsimp only
      rw [InsertionMap.get_delete, if_neg hkey]
    | some oldest =>
      have hne : key ≠ oldest := fun heq => h (heq ▸ hevicted)
      dsimp only
      rw [InsertionMap.get_delete, if_neg hne, InsertionMap.get_delete, if_neg hkey]

end entries

section attempts

variable {x : LoginState} {key : String} {i j : ℕ}
  {job other : Job String Attempt AttemptPhase AttemptResult}
  {status : JobStatus AttemptPhase AttemptResult}

/-- An attempt that has asked for the check of its password. -/
def Verifying (x : LoginState) (i : ℕ) : Prop :=
  ∃ job counts, x.queue.At i job ∧ job.status = .running (.verifying counts)

/-- A check begins only where a status becomes one. -/
theorem verifying_setStatus (hnot : ¬ Verifying x j)
    (h : Verifying { x with queue := x.queue.setStatus i status } j) :
    i = j ∧ ∃ counts, status = .running (.verifying counts) := by
  obtain ⟨job, counts, hjob, hstatus⟩ := h
  obtain ⟨old, hold, rfl⟩ := at_setStatus.mp hjob
  split_ifs at hstatus with heq
  · exact ⟨heq, counts, hstatus⟩
  · exact absurd ⟨old, counts, hold, hstatus⟩ hnot

variable [Platform]

/-- The delay after the account's last failure has passed. -/
def Ready (x : LoginState) (key : String) : Prop :=
  ∀ recordedAt, lastFailure key x.outcomes = some recordedAt →
    recordedAt + backoffDelayMs (failuresSince key x.outcomes) ≤ x.now

/-- The account that an event drops from the bounded map. -/
def evictedBy (x : LoginState) : LoginEvent → Option String
  | .verified i isRight =>
      match x.queue.jobs[i]? with
      | some ⟨_, attempt, _, .running (.verifying counts), _⟩ =>
          if isRight && counts then none
          else x.backoff.evicted (Platform.toLowerCase attempt.email)
      | _ => none
  | _ => none

/-- What holds of an account that is never dropped. -/
structure Guarded (key : String) (x : LoginState) : Prop where
  wf : x.queue.Wf
  keys : ∀ i job, x.queue.At i job → job.key = Platform.toLowerCase job.task.email
  entry : x.backoff.entries.get key = standing key x.outcomes
  past : ∀ o ∈ x.outcomes, o.recordedAt ≤ x.now
  ready : ∀ i job, x.queue.At i job → job.key = key → job.status = .running .lookingUp → Ready x key

/-- The gate opens when the delay has passed. -/
theorem Guarded.gate (h : Guarded key x) {email : String} (hkey : Platform.toLowerCase email = key)
    (hgate : ¬ 0 < x.backoff.retryAfterMs email x.now) : Ready x key := by
  intro recordedAt hlast
  subst hkey
  rw [LoginBackoff.retryAfterMs, h.entry] at hgate
  rw [failuresSince_eq]
  cases hstanding : standing (Platform.toLowerCase email) x.outcomes with
  | none =>
    obtain ⟨o, ho, rfl⟩ := lastFailure_mem hlast
    have hpast := h.past o ho
    change o.recordedAt + backoffDelayMs 0 ≤ x.now
    have hzero : backoffDelayMs 0 = 0 := rfl
    rw [hzero]
    linarith
  | some entry =>
    rw [lastFailure_of_standing hstanding] at hlast
    obtain rfl := Option.some.inj hlast
    simp only [hstanding, lt_max_iff, lt_self_iff_false, false_or, not_lt] at hgate
    change entry.lastFailureAtMs + backoffDelayMs entry.failures ≤ x.now
    linarith

theorem Guarded.setStatus (h : Guarded key x) (hmove : x.queue.mayMove i = true)
    (hready : ∀ job, x.queue.At i job → job.key = key → status = .running .lookingUp →
      Ready x key) : Guarded key { x with queue := x.queue.setStatus i status } := by
  refine ⟨h.wf.setStatus hmove status, fun j job hjob => ?_, h.entry, h.past,
    fun j job hjob hkey hstatus => ?_⟩
  · obtain ⟨old, hold, rfl⟩ := at_setStatus.mp hjob
    have hkeys := h.keys j old hold
    split_ifs <;> exact hkeys
  · obtain ⟨old, hold, rfl⟩ := at_setStatus.mp hjob
    by_cases heq : i = j
    · subst heq
      simp only [if_true] at hkey hstatus
      exact hready old hold hkey hstatus
    · simp only [if_neg heq] at hkey hstatus
      exact h.ready j old hold hkey hstatus

/-- Only the attempt that runs records an outcome, and no other one is past the gate then. -/
theorem Guarded.record (h : Guarded key x) (hjob : x.queue.At i job) {counts succeeded : Bool}
    (hstatus : job.status = .running (.verifying counts)) {backoff : LoginBackoff}
    (hentry : backoff.entries.get key = standing key (⟨job.key, succeeded, x.now⟩ :: x.outcomes)) :
    Guarded key
      { x with backoff, outcomes := ⟨job.key, succeeded, x.now⟩ :: x.outcomes } := by
  refine ⟨h.wf, h.keys, hentry, fun o ho => ?_, fun j other hother hkey hlooking => ?_⟩
  · rcases List.mem_cons.mp ho with rfl | ho
    · exact le_rfl
    · exact h.past o ho
  · by_cases hsame : job.key = key
    · obtain rfl := h.wf.running_unique hjob hother (hsame.trans hkey.symm) hstatus hlooking
      obtain rfl := hjob.unique hother
      rw [hstatus] at hlooking
      cases hlooking
    · intro recordedAt hlast
      have hready := h.ready j other hother hkey hlooking recordedAt
      simp only [lastFailure, failuresSince, hsame, false_and, if_false] at hlast ⊢
      exact hready hlast

theorem Guarded.recordFailure (h : Guarded key x) (hjob : x.queue.At i job) {counts : Bool}
    (hstatus : job.status = .running (.verifying counts))
    (hkept : x.backoff.evicted (Platform.toLowerCase job.task.email) ≠ some key) :
    Guarded key (x.recordFailure job.task.email) := by
  unfold LoginState.recordFailure LoginBackoff.recordFailure
  rw [← h.keys i job hjob] at hkept ⊢
  refine h.record hjob hstatus ?_
  rw [get_recordFailureAt _ hkept, h.entry, standing]
  by_cases hkey : key = job.key
  · simp [hkey]
  · simp [hkey, Ne.symm hkey]

theorem Guarded.recordSuccess (h : Guarded key x) (hjob : x.queue.At i job) {counts : Bool}
    (hstatus : job.status = .running (.verifying counts)) :
    Guarded key (x.recordSuccess job.task.email) := by
  unfold LoginState.recordSuccess LoginBackoff.reset
  rw [← h.keys i job hjob]
  refine h.record hjob hstatus ?_
  rw [InsertionMap.get_delete, h.entry, standing]
  by_cases hkey : key = job.key
  · simp [hkey]
  · simp [hkey, Ne.symm hkey]

theorem Guarded.start (h : Guarded key x) (hmove : x.queue.mayMove i = true)
    (hjob : x.queue.At i job) : Guarded key (x.start i job.task) := by
  unfold LoginState.start
  dsimp only
  split_ifs with hgate
  · exact h.setStatus hmove fun _ _ _ hlooking => by cases hlooking
  · cases job.task.surface with
    | login =>
      refine h.setStatus hmove fun old hold hkey _ => ?_
      obtain rfl := hold.unique hjob
      exact h.gate ((h.keys i old hold).symm.trans hkey) hgate
    | changePassword => exact h.setStatus hmove fun _ _ _ hlooking => by cases hlooking

theorem Guarded.verified (h : Guarded key x) (hjob : x.queue.At i job) {counts : Bool}
    (hstatus : job.status = .running (.verifying counts)) {succeeded : Bool}
    (hkept : succeeded = false →
      x.backoff.evicted (Platform.toLowerCase job.task.email) ≠ some key) :
    Guarded key (x.verified i job.task succeeded) := by
  have hmove : x.queue.mayMove i = true := mayMove_running hjob hstatus
  unfold LoginState.verified
  cases succeeded with
  | true =>
    have hrecorded := h.recordSuccess hjob hstatus
    cases job.task.surface with
    | login => exact hrecorded.setStatus hmove fun _ _ _ hlooking => by cases hlooking
    | changePassword => exact hrecorded.setStatus hmove fun _ _ _ hlooking => by cases hlooking
  | false =>
    have hrecorded := h.recordFailure hjob hstatus (hkept rfl)
    cases job.task.surface with
    | login => exact hrecorded.setStatus hmove fun _ _ _ hlooking => by cases hlooking
    | changePassword => exact hrecorded.setStatus hmove fun _ _ _ hlooking => by cases hlooking

theorem Guarded.step (h : Guarded key x) {event : LoginEvent}
    (hkept : evictedBy x event ≠ some key) : Guarded key (x.step event) := by
  cases event with
  | attempt surface email =>
    refine ⟨h.wf.enqueue _ _, fun j job hjob => ?_, h.entry, h.past, fun j job hjob => ?_⟩
    · rcases at_enqueue.mp hjob with hold | ⟨-, rfl⟩
      · exact h.keys j job hold
      · rfl
    · rcases at_enqueue.mp hjob with hold | ⟨-, rfl⟩
      · exact h.ready j job hold
      · rintro - hstatus
        cases hstatus
  | elapse ms =>
    have hlater : x.now ≤ x.now + (ms : ℤ) := by
      have hms := Int.natCast_nonneg ms
      linarith
    refine ⟨h.wf, h.keys, h.entry, fun o ho => (h.past o ho).trans hlater, ?_⟩
    intro j job hjob hkey hstatus recordedAt hlast
    exact (h.ready j job hjob hkey hstatus recordedAt hlast).trans hlater
  | react i =>
    refine ⟨h.wf.react i, fun j job hjob => ?_, h.entry, h.past, fun j job hjob hkey hstatus => ?_⟩
    · obtain ⟨old, hold, hkey, htask, -⟩ := react_back hjob
      rw [hkey, htask]
      exact h.keys j old hold
    · obtain ⟨old, hold, hsame, -, hphase⟩ := react_back hjob
      exact h.ready j old hold (hsame ▸ hkey) (hphase ▸ hstatus)
  | start i =>
    rw [LoginState.step]
    split
    · next k attempt prior reacted hjob =>
      split_ifs with hmove
      · exact h.start hmove hjob
      · exact h
    · exact h
  | lookedUp i found =>
    rw [LoginState.step]
    split
    · next k attempt prior reacted hjob =>
      exact h.setStatus (mayMove_running hjob rfl) fun _ _ _ hlooking => by cases hlooking
    · exact h
  | verified i isRight =>
    rw [LoginState.step]
    split
    · next k attempt prior counts reacted hjob =>
      exact h.verified hjob rfl (by simpa [evictedBy, hjob] using hkept)
    · exact h
  | stored i unchanged =>
    rw [LoginState.step]
    split
    · next k attempt prior reacted hjob =>
      exact h.setStatus (mayMove_running hjob rfl) fun _ _ _ hlooking => by cases hlooking
    · exact h
  | rejected i =>
    rw [LoginState.step]
    split
    · next k attempt prior phase reacted hjob =>
      exact h.setStatus (mayMove_running hjob rfl) fun _ _ _ hlooking => by cases hlooking
    · exact h

/-- The event begins the check of an attempt on the account. -/
def StartsVerifying (key : String) (x : LoginState) (event : LoginEvent) (i : ℕ) : Prop :=
  ¬ Verifying x i ∧ Verifying (x.step event) i ∧ ∃ job, x.queue.At i job ∧ job.key = key

theorem Guarded.ready_of_starts (h : Guarded key x) {event : LoginEvent}
    (hstarts : StartsVerifying key x event i) : Ready x key := by
  obtain ⟨hnot, hverifying, job, hjob, hkey⟩ := hstarts
  have hfinal : ∀ (y : LoginState) (k : ℕ) (s : JobStatus AttemptPhase AttemptResult),
      y.queue = x.queue → (∀ counts, s ≠ .running (.verifying counts)) →
        ¬ Verifying { y with queue := y.queue.setStatus k s } i := by
    intro y k s hsame hother hstep
    have hy : ¬ Verifying y i := by
      unfold Verifying
      rw [hsame]
      exact hnot
    obtain ⟨-, counts, hs⟩ := verifying_setStatus hy hstep
    exact hother counts hs
  cases event with
  | attempt surface email =>
    obtain ⟨old, counts, hold, hstatus⟩ := hverifying
    rcases at_enqueue.mp hold with hat | ⟨rfl, -⟩
    · exact absurd ⟨old, counts, hat, hstatus⟩ hnot
    · exact absurd hjob.lt (lt_irrefl _)
  | elapse ms => exact absurd hverifying hnot
  | react k =>
    obtain ⟨new, counts, hnew, hstatus⟩ := hverifying
    obtain ⟨old, hold, -, -, hsame⟩ := react_back hnew
    exact absurd ⟨old, counts, hold, hsame ▸ hstatus⟩ hnot
  | start k =>
    rw [LoginState.step] at hverifying
    split at hverifying
    · next key' attempt prior reacted hattempt =>
      split_ifs at hverifying with hmove
      · unfold LoginState.start at hverifying
        dsimp only at hverifying
        split_ifs at hverifying with hgate
        · exact absurd hverifying (hfinal x k _ rfl (by simp))
        · cases hsurface : attempt.surface with
          | login =>
            rw [hsurface] at hverifying
            exact absurd hverifying (hfinal x k _ rfl (by simp))
          | changePassword =>
            rw [hsurface] at hverifying
            obtain ⟨rfl, -⟩ := verifying_setStatus hnot hverifying
            obtain rfl := hjob.unique hattempt
            exact h.gate ((h.keys k _ hattempt).symm.trans hkey) hgate
      · exact absurd hverifying hnot
    · exact absurd hverifying hnot
  | lookedUp k found =>
    rw [LoginState.step] at hverifying
    split at hverifying
    · next key' attempt prior reacted hattempt =>
      obtain ⟨rfl, -⟩ := verifying_setStatus hnot hverifying
      obtain rfl := hjob.unique hattempt
      exact h.ready k _ hattempt hkey rfl
    · exact absurd hverifying hnot
  | verified k isRight =>
    rw [LoginState.step] at hverifying
    split at hverifying
    · next key' attempt prior counts reacted hattempt =>
      unfold LoginState.verified at hverifying
      split at hverifying
      · exact absurd hverifying (hfinal (x.recordSuccess attempt.email) k _ rfl (by simp))
      · exact absurd hverifying (hfinal (x.recordSuccess attempt.email) k _ rfl (by simp))
      · exact absurd hverifying (hfinal (x.recordFailure attempt.email) k _ rfl (by simp))
      · exact absurd hverifying (hfinal (x.recordFailure attempt.email) k _ rfl (by simp))
    · exact absurd hverifying hnot
  | stored k unchanged =>
    rw [LoginState.step] at hverifying
    split at hverifying
    · exact absurd hverifying (hfinal x k _ rfl (by simp))
    · exact absurd hverifying hnot
  | rejected k =>
    rw [LoginState.step] at hverifying
    split at hverifying
    · exact absurd hverifying (hfinal x k _ rfl (by simp))
    · exact absurd hverifying hnot

/-- No attempt was made yet. -/
def noAttempts (now : Instant) (maxEntries : ℕ) : LoginState where
  now
  backoff := ⟨maxEntries, InsertionMap.empty⟩
  queue := KeyedQueue.empty
  outcomes := []

theorem guarded_noAttempts (key : String) (now : Instant) (maxEntries : ℕ) :
    Guarded key (noAttempts now maxEntries) where
  wf := wf_empty
  keys _ _ h := by cases h
  entry := rfl
  past _ h := by cases h
  ready _ _ h := by cases h

/-- While the account's entry is not dropped, its checks wait for their delay; its attempts run
one at a time, in order; and when all of them are over, no queue is left. -/
theorem login_bursts (email : String) (now : Instant) (maxEntries : ℕ) (events : List LoginEvent)
    (hkept : Admitted LoginState.step
      (fun x event => evictedBy x event ≠ some (Platform.toLowerCase email))
      (noAttempts now maxEntries) events) :
    let key := Platform.toLowerCase email
    let x := runAll LoginState.step (noAttempts now maxEntries) events
    (∀ event i, StartsVerifying key x event i → Ready x key) ∧
    (∀ i j job other, i < j → x.queue.At i job → x.queue.At j other → job.key = key →
      other.key = key → other.status ≠ .waiting → isSettled job.status = true) ∧
    ((∀ i job, x.queue.At i job → job.key = key → job.reacted = true) →
      x.queue.tails key = none) := by
  intro key x
  have hguarded : Guarded key x :=
    runAll_induction (fun _ _ h hevent => h.step hevent) (guarded_noAttempts key now maxEntries) hkept
  refine ⟨fun _ _ => hguarded.ready_of_starts, ?_, hguarded.wf.tails_eq_none⟩
  intro i j job other hlt hi hj hkey hkey' hstarted
  exact hguarded.wf.settled_of_lt hi hj hlt (hkey.trans hkey'.symm) hstarted

end attempts

/-- A wrong password, then two more attempts on the account: the one that starts too early is
turned away, and the other one's check begins a second later. -/
def sampleAttempts : List LoginEvent :=
  [.attempt .login "Ann@example.org", .start 0, .attempt .changePassword "ann@example.org",
    .attempt .changePassword "ANN@example.org", .lookedUp 0 (some true), .verified 0 false,
    .start 1, .react 0, .elapse 1000]

theorem login_bursts_sample :
    @Ready (@runAll _ _ (@LoginState.step samplePlatform) (noAttempts 0 10000) sampleAttempts)
      "ann@example.org" := by
  have hkept : @Admitted _ _ (@LoginState.step samplePlatform)
      (fun x event => @evictedBy samplePlatform x event ≠
        some (@Platform.toLowerCase samplePlatform "ann@example.org"))
      (noAttempts 0 10000) sampleAttempts := by decide +kernel
  obtain ⟨hready, -⟩ := @login_bursts samplePlatform "ann@example.org" 0 10000 sampleAttempts hkept
  have hbefore : ((@runAll _ _ (@LoginState.step samplePlatform) (noAttempts 0 10000)
      sampleAttempts).queue.jobs[2]?).map (fun job => (job.key, job.status)) =
        some ("ann@example.org", .waiting) := by decide +kernel
  have hafter : ((@LoginState.step samplePlatform (@runAll _ _ (@LoginState.step samplePlatform)
      (noAttempts 0 10000) sampleAttempts) (.start 2)).queue.jobs[2]?).map (·.status) =
        some (.running (.verifying true)) := by decide +kernel
  obtain ⟨job, hjob, hpair⟩ := Option.map_eq_some_iff.mp hbefore
  obtain ⟨new, hnew, hstatus⟩ := Option.map_eq_some_iff.mp hafter
  refine hready (.start 2) 2 ⟨?_, ⟨new, true, hnew, hstatus⟩, job, hjob, congrArg Prod.fst hpair⟩
  rintro ⟨other, counts, hother, hchecking⟩
  obtain rfl := hother.unique hjob
  have hwaiting := congrArg Prod.snd hpair
  rw [hchecking] at hwaiting
  cases hwaiting

end AiKanban.Invariants
