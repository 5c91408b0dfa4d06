import AiKanban.Invariants.SerialUnits
import AiKanban.Transitions.Fairness

/-!
# Every unit of work settles

Whatever the bodies do, units of work that they open inside themselves included, and whatever
fails, a call gets its result when every job gets its turn again and again. On the write
connection the results are those of plain transactions.
-/
namespace AiKanban.Invariants.UnitsOfWork

open Db Transactions Transitions KeyedQueue SqliteUnitOfWork

section progress

variable {σ ω ε ι α : Type}

/-- What a turn of a job makes of its status. -/
inductive Progress : JobStatus (Body σ ω ε ι α) (Except ε α) →
    JobStatus (Body σ ω ε ι α) (Except ε α) → Prop
  | refused (result) : Progress (.settled result) .waiting
  | begun (body) : Progress (.running body) .waiting
  | ended (result body) : Progress (.settled result) (.running body)
  | query (next r) : Progress (.running (next r)) (.running (.query next))
  | write (effect next r) : Progress (.running (next r)) (.running (.write effect next))
  | draw (next input) : Progress (.running (next input)) (.running (.draw next))
  | nested (other inner next e) : Progress (.running (next e)) (.running (.nested other inner next))

theorem Progress.unsettled {status old : JobStatus (Body σ ω ε ι α) (Except ε α)}
    (h : Progress status old) : isSettled old = false := by
  cases h <;> rfl

theorem acc_settled (result : Except ε α) :
    Acc (Progress (σ := σ) (ω := ω) (ι := ι)) (.settled result) :=
  Acc.intro _ fun _ h => by cases h

theorem acc_running (body : Body σ ω ε ι α) : Acc Progress (.running body) := by
  induction body with
  | done result =>
    refine Acc.intro _ fun _ h => ?_
    cases h
    exact acc_settled _
  | query next ih =>
    refine Acc.intro _ fun _ h => ?_
    cases h with
    | ended result => exact acc_settled result
    | query _ r => exact ih r
  | write effect next ih =>
    refine Acc.intro _ fun _ h => ?_
    cases h with
    | ended result => exact acc_settled result
    | write _ _ r => exact ih r
  | draw next ih =>
    refine Acc.intro _ fun _ h => ?_
    cases h with
    | ended result => exact acc_settled result
    | draw _ input => exact ih input
  | nested other inner next _ ih =>
    refine Acc.intro _ fun _ h => ?_
    cases h with
    | ended result => exact acc_settled result
    | nested _ _ _ e => exact ih e

/-- No job makes progress for ever. -/
theorem progress_wf : WellFounded (Progress (σ := σ) (ω := ω) (ε := ε) (ι := ι) (α := α)) := by
  refine ⟨fun status => ?_⟩
  cases status with
  | settled result => exact acc_settled result
  | running body => exact acc_running body
  | waiting =>
    refine Acc.intro _ fun _ h => ?_
    cases h with
    | refused result => exact acc_settled result
    | begun body => exact acc_running body

variable (errors : UnitErrors ε) (x : SqliteUnitOfWork σ ω ε ι α)

theorem start_progress (i : ℕ) (access : Access) (body : Body σ ω ε ι α)
    (fault : Option (SqliteFault ε)) : ∃ status, Progress status .waiting ∧
      (x.start errors i access body fault).queue = x.queue.setStatus i status := by
  unfold SqliteUnitOfWork.start
  cases fault with
  | some fault => exact ⟨_, .refused _, rfl⟩
  | none =>
    dsimp only
    split_ifs
    · exact ⟨_, .refused _, rfl⟩
    · cases access <;> exact ⟨_, .begun body, rfl⟩

theorem finish_progress (i : ℕ) (access : Access) (result : Except ε α)
    (fault : Option (SqliteFault ε)) : ∃ settled,
      (x.finish errors i access result fault).queue = x.queue.setStatus i (.settled settled) := by
  unfold SqliteUnitOfWork.finish
  cases result with
  | error e => cases access <;> exact ⟨_, rfl⟩
  | ok a =>
    cases fault with
    | some fault => cases access <;> exact ⟨_, rfl⟩
    | none =>
      dsimp only
      split_ifs
      · cases access <;> exact ⟨_, rfl⟩
      · exact ⟨_, rfl⟩

variable [Replay σ ω]

theorem turn_progress (i : ℕ) (access : Access) (input : ι) (fault : Option (SqliteFault ε))
    (body : Body σ ω ε ι α) : ∃ status, Progress status (.running body) ∧
      (x.turn errors i access input fault body).queue = x.queue.setStatus i status := by
  cases body with
  | done result =>
    obtain ⟨settled, hqueue⟩ := finish_progress errors x i access result fault
    exact ⟨_, .ended settled _, hqueue⟩
  | draw next => exact ⟨_, .draw next input, rfl⟩
  | nested other inner next => exact ⟨_, .nested other inner next _, rfl⟩
  | query next =>
    cases fault with
    | some fault => exact ⟨_, .query next (.error fault.error), by simp [SqliteUnitOfWork.turn]⟩
    | none => cases access <;> exact ⟨_, .query next _, rfl⟩
  | write effect next =>
    cases fault with
    | some fault => exact ⟨_, .write effect next (.error fault.error), by simp [SqliteUnitOfWork.turn]⟩
    | none =>
      unfold SqliteUnitOfWork.turn SqliteUnitOfWork.write
      cases access with
      | read => exact ⟨_, .write effect next _, rfl⟩
      | run =>
        dsimp only
        cases effect (x.view .run) with
        | error e => exact ⟨_, .write effect next _, rfl⟩
        | ok ws =>
          refine ⟨_, .write effect next (.ok (x.view .run)), ?_⟩
          unfold SqliteUnitOfWork.save
          dsimp only
          split_ifs <;> rfl

variable {errors x}

/-- The jobs are in order, and each waits for an earlier one. -/
structure Ordered (x : SqliteUnitOfWork σ ω ε ι α) : Prop where
  wf : x.queue.Wf
  earlier : ∀ j job p, x.queue.At j job → job.prior = some p → p < j

/-- What one step does to the jobs. -/
theorem step_cases (errors : UnitErrors ε) (x : SqliteUnitOfWork σ ω ε ι α)
    (event : UnitEvent σ ω ε ι α) :
    (x.step errors event).queue = x.queue ∨
      (∃ access body, event = .call access body ∧
        (x.step errors event).queue = x.queue.enqueue access body) ∨
      ∃ i job status, x.queue.At i job ∧ x.queue.mayMove i = true ∧ Progress status job.status ∧
        (x.step errors event).queue = x.queue.setStatus i status := by
  cases event with
  | call access body => exact Or.inr (Or.inl ⟨access, body, rfl, rfl⟩)
  | start i fault =>
    rcases x.step_start errors i fault with hsame | ⟨job, hjob, hwaiting, hmove, heq⟩
    · exact Or.inl (by rw [hsame])
    · obtain ⟨status, hprogress, hqueue⟩ :=
        start_progress errors x i job.key job.task fault
      exact Or.inr (Or.inr ⟨i, job, status, hjob, hmove, hwaiting ▸ hprogress, heq ▸ hqueue⟩)
  | turn i input fault =>
    rcases x.step_turn errors i input fault with hsame | ⟨job, rest, hjob, hrunning, heq⟩
    · exact Or.inl (by rw [hsame])
    · obtain ⟨status, hprogress, hqueue⟩ :=
        turn_progress errors x i job.key input fault rest
      exact Or.inr (Or.inr ⟨i, job, status, hjob, mayMove_running hjob hrunning,
        hrunning ▸ hprogress, heq ▸ hqueue⟩)

theorem Ordered.step (h : Ordered x) (event : UnitEvent σ ω ε ι α) :
    Ordered (x.step errors event) := by
  rcases step_cases errors x event with
    hqueue | ⟨access, body, -, hqueue⟩ | ⟨i, job, status, hjob, hmove, -, hqueue⟩
  · exact ⟨hqueue ▸ h.wf, hqueue ▸ h.earlier⟩
  · refine ⟨hqueue ▸ h.wf.enqueue access body, fun j job p hjob hprior => ?_⟩
    rw [hqueue] at hjob
    rcases at_enqueue.mp hjob with hold | ⟨rfl, rfl⟩
    · exact h.earlier j job p hold hprior
    · obtain ⟨⟨last, hlast, -⟩, -⟩ := h.wf.tail access p hprior
      exact hlast.lt
  · refine ⟨hqueue ▸ h.wf.setStatus hmove status, fun j other p hother hprior => ?_⟩
    rw [hqueue] at hother
    obtain ⟨old, hold, rfl⟩ := at_setStatus.mp hother
    refine h.earlier j old p hold ?_
    split_ifs at hprior <;> exact hprior

variable (errors)

/-- A job stays where it is, and its status is the same or further on. -/
theorem step_at {j : ℕ} {job : Job Access (Body σ ω ε ι α) (Body σ ω ε ι α) (Except ε α)}
    (hjob : x.queue.At j job) (event : UnitEvent σ ω ε ι α) :
    ∃ job', (x.step errors event).queue.At j job' ∧
      (job'.status = job.status ∨ Progress job'.status job.status) := by
  rcases step_cases errors x event with
    hqueue | ⟨access, body, -, hqueue⟩ | ⟨i, moved, status, hmoved, -, hprogress, hqueue⟩
  · exact ⟨job, hqueue ▸ hjob, Or.inl rfl⟩
  · exact ⟨job, hqueue ▸ at_enqueue.mpr (Or.inl hjob), Or.inl rfl⟩
  · refine ⟨_, hqueue ▸ at_setStatus.mpr ⟨job, hjob, rfl⟩, ?_⟩
    by_cases heq : i = j
    · subst heq
      obtain rfl := hmoved.unique hjob
      exact Or.inr (by simpa using hprogress)
    · exact Or.inl (by rw [if_neg heq])

section turns

variable {i : ℕ} {job : Job Access (Body σ ω ε ι α) (Body σ ω ε ι α) (Except ε α)}

/-- A job whose predecessors have settled begins when its turn comes. -/
theorem Ordered.begins (h : Ordered x) (hjob : x.queue.At i job) (hwaiting : job.status = .waiting)
    (hbefore : ∀ j other, j < i → x.queue.At j other → isSettled other.status = true)
    (fault : Option (SqliteFault ε)) : ∃ job', (x.step errors (.start i fault)).queue.At i job' ∧
      Progress job'.status job.status := by
  have hmove : x.queue.mayMove i = true := by
    unfold KeyedQueue.mayMove
    rw [show x.queue.jobs[i]? = some job from hjob]
    simp only [hwaiting]
    cases hprior : job.prior with
    | none => rfl
    | some p =>
      obtain ⟨⟨before, hp, -⟩, -⟩ := h.wf.prior i job p hjob hprior
      have hsettled := hbefore p before (h.earlier i job p hjob hprior) hp
      simp [settledAt, show x.queue.jobs[p]? = some before from hp, hsettled]
  obtain ⟨status, hprogress, hqueue⟩ :=
    start_progress errors x i job.key job.task fault
  have hstep : x.step errors (.start i fault) = x.start errors i job.key job.task fault := by
    obtain ⟨key, task, prior, status, reacted⟩ := job
    obtain rfl : status = .waiting := hwaiting
    unfold SqliteUnitOfWork.step
    dsimp only
    rw [show x.queue.jobs[i]? = some _ from hjob]
    simp only [hmove, if_true]
  refine ⟨{ job with status }, ?_, hwaiting ▸ hprogress⟩
  rw [hstep, hqueue]
  exact at_setStatus.mpr ⟨job, hjob, by simp⟩

theorem goes_on (hjob : x.queue.At i job) {rest : Body σ ω ε ι α}
    (hrunning : job.status = .running rest) (input : ι) (fault : Option (SqliteFault ε)) :
    ∃ job', (x.step errors (.turn i input fault)).queue.At i job' ∧
      Progress job'.status job.status := by
  obtain ⟨status, hprogress, hqueue⟩ :=
    turn_progress errors x i job.key input fault rest
  have hstep : x.step errors (.turn i input fault) = x.turn errors i job.key input fault rest := by
    obtain ⟨key, task, prior, status, reacted⟩ := job
    obtain rfl : status = .running rest := hrunning
    unfold SqliteUnitOfWork.step
    dsimp only
    rw [show x.queue.jobs[i]? = some _ from hjob]
  refine ⟨{ job with status }, ?_, hrunning ▸ hprogress⟩
  rw [hstep, hqueue]
  exact at_setStatus.mpr ⟨job, hjob, by simp⟩

end turns

end progress

section schedules

variable {σ ω ε ι α : Type} {errors : UnitErrors ε} {i n : ℕ}
  {job : Job Access (Body σ ω ε ι α) (Body σ ω ε ι α) (Except ε α)}

/-- The status of a job; one that has not come yet waits. -/
def statusAt (x : SqliteUnitOfWork σ ω ε ι α) (i : ℕ) : JobStatus (Body σ ω ε ι α) (Except ε α) :=
  (x.queue.jobs[i]?).elim .waiting (·.status)

theorem statusAt_eq {x : SqliteUnitOfWork σ ω ε ι α} (h : x.queue.At i job) :
    statusAt x i = job.status := by
  unfold statusAt
  rw [show x.queue.jobs[i]? = some job from h]
  rfl

variable [Replay σ ω]

/-- The state after so many events of a schedule. -/
def unitsAt (errors : UnitErrors ε) (s : σ) (schedule : ℕ → UnitEvent σ ω ε ι α) :
    ℕ → SqliteUnitOfWork σ ω ε ι α
  | 0 => .initial s
  | n + 1 => (unitsAt errors s schedule n).step errors (schedule n)

/-- Every job gets its turns again and again. -/
def Fair (schedule : ℕ → UnitEvent σ ω ε ι α) : Prop :=
  ∀ i n, (∃ m ≥ n, ∃ fault, schedule m = .start i fault) ∧
    ∃ m ≥ n, ∃ input fault, schedule m = .turn i input fault

variable {s : σ} {schedule : ℕ → UnitEvent σ ω ε ι α}

theorem ordered_unitsAt (n : ℕ) : Ordered (unitsAt errors s schedule n) := by
  induction n with
  | zero => exact ⟨wf_empty, fun _ _ _ h => by cases h⟩
  | succ n ih => exact ih.step (schedule n)

theorem at_later (h : (unitsAt errors s schedule n).queue.At i job) {m : ℕ} (hle : n ≤ m) :
    ∃ later, (unitsAt errors s schedule m).queue.At i later := by
  induction m, hle using Nat.le_induction with
  | base => exact ⟨job, h⟩
  | succ m _ ih =>
    obtain ⟨later, hlater⟩ := ih
    obtain ⟨next, hnext, -⟩ := step_at errors hlater (schedule m)
    exact ⟨next, hnext⟩

theorem settled_later (h : isSettled (statusAt (unitsAt errors s schedule n) i) = true) {m : ℕ}
    (hle : n ≤ m) : isSettled (statusAt (unitsAt errors s schedule m) i) = true := by
  induction m, hle using Nat.le_induction with
  | base => exact h
  | succ m _ ih =>
    cases hjob : (unitsAt errors s schedule m).queue.jobs[i]? with
    | none => simp [statusAt, hjob, isSettled] at ih
    | some job =>
      obtain ⟨next, hnext, hstatus⟩ := step_at errors hjob (schedule m)
      rw [statusAt_eq hjob] at ih
      rw [statusAt_eq (x := unitsAt errors s schedule (m + 1)) hnext]
      rcases hstatus with hsame | hprogress
      · rw [hsame]
        exact ih
      · simp [hprogress.unsettled] at ih

/-- When the jobs before it have settled, a job settles in time. -/
theorem settles_after (hfair : Fair schedule)
    (hbefore : ∀ j < i, isSettled (statusAt (unitsAt errors s schedule n) j) = true)
    (hjob : (unitsAt errors s schedule n).queue.At i job) :
    ∃ m ≥ n, isSettled (statusAt (unitsAt errors s schedule m) i) = true := by
  refine eventually_done (fun m => statusAt (unitsAt errors s schedule m) i)
    (fun status => isSettled status = true) progress_wf (fun m hm => ?_) fun m hm hopen => ?_
  · obtain ⟨later, hlater⟩ := at_later hjob hm
    obtain ⟨next, hnext, hstatus⟩ := step_at errors hlater (schedule m)
    rw [statusAt_eq hlater, statusAt_eq (x := unitsAt errors s schedule (m + 1)) hnext]
    exact hstatus
  · obtain ⟨later, hlater⟩ := at_later hjob hm
    rw [statusAt_eq hlater] at hopen
    cases hstatus : later.status with
    | settled result => simp [hstatus, isSettled] at hopen
    | waiting =>
      obtain ⟨k, hk, fault, hevent⟩ := (hfair i m).1
      refine ⟨k, hk, fun hsame => ?_⟩
      obtain ⟨here, hhere⟩ := at_later hlater hk
      rw [statusAt_eq hhere, statusAt_eq hlater, hstatus] at hsame
      obtain ⟨next, hnext, hprogress⟩ := (ordered_unitsAt k).begins errors hhere hsame
        (fun j other hlt hother => by
          rw [← statusAt_eq hother]
          exact settled_later (hbefore j hlt) (by omega)) fault
      rw [← hevent] at hnext
      rw [statusAt_eq hhere, statusAt_eq (x := unitsAt errors s schedule (k + 1)) hnext]
      exact hprogress
    | running rest =>
      obtain ⟨k, hk, input, fault, hevent⟩ := (hfair i m).2
      refine ⟨k, hk, fun hsame => ?_⟩
      obtain ⟨here, hhere⟩ := at_later hlater hk
      rw [statusAt_eq hhere, statusAt_eq hlater, hstatus] at hsame
      obtain ⟨next, hnext, hprogress⟩ := goes_on errors hhere hsame input fault
      rw [← hevent] at hnext
      rw [statusAt_eq hhere, statusAt_eq (x := unitsAt errors s schedule (k + 1)) hnext]
      exact hprogress

/-- Every call settles, whatever the bodies do, whichever calls they make inside themselves and
whatever fails; no job is ever stuck behind another. -/
theorem every_unit_settles (hfair : Fair schedule)
    (hjob : (unitsAt errors s schedule n).queue.At i job) :
    ∃ m ≥ n, ∃ later, (unitsAt errors s schedule m).queue.At i later ∧
      isSettled later.status = true := by
  induction i using Nat.strong_induction_on generalizing n job with
  | _ i ih =>
    -- The jobs before it settle one by one, and stay settled.
    have hsome : ∀ k ≤ i, ∃ m ≥ n, ∀ j < k,
        isSettled (statusAt (unitsAt errors s schedule m) j) = true := by
      intro k hk
      induction k with
      | zero => exact ⟨n, le_rfl, fun j hj => absurd hj (Nat.not_lt_zero j)⟩
      | succ k ihk =>
        obtain ⟨m, hm, hdone⟩ := ihk (by omega)
        obtain ⟨later, hlater⟩ := at_later hjob hm
        have hlt : k < (unitsAt errors s schedule m).queue.jobs.length := by
          have hlast := hlater.lt
          omega
        obtain ⟨m', hm', other, hother, hsettled⟩ := ih k (by omega) (List.getElem?_eq_getElem hlt)
        refine ⟨m', by omega, fun j hj => ?_⟩
        rcases Nat.lt_succ_iff_lt_or_eq.mp hj with hearlier | rfl
        · exact settled_later (hdone j hearlier) hm'
        · rw [statusAt_eq hother]
          exact hsettled
    obtain ⟨m, hm, hdone⟩ := hsome i le_rfl
    obtain ⟨later, hlater⟩ := at_later hjob hm
    obtain ⟨m', hm', hsettled⟩ := settles_after hfair hdone hlater
    obtain ⟨last, hlast⟩ := at_later hlater hm'
    exact ⟨m', by omega, last, hlast, statusAt_eq hlast ▸ hsettled⟩

/-- One call, and then a turn of every job again and again. -/
def sampleSchedule : ℕ → UnitEvent Store Write String Unit Unit
  | 0 => .call .run (.nested .run (.done (.ok ())) fun _ => .done (.ok ()))
  | n + 1 =>
      if n.unpair.1 % 2 = 0 then .start n.unpair.2 none else .turn n.unpair.2 () none

theorem fair_sampleSchedule : Fair sampleSchedule := by
  intro i n
  constructor
  · have hle := Nat.left_le_pair (2 * n) i
    exact ⟨Nat.pair (2 * n) i + 1, by omega, none, by simp [sampleSchedule]⟩
  · have hle := Nat.left_le_pair (2 * n + 1) i
    exact ⟨Nat.pair (2 * n + 1) i + 1, by omega, (), none, by simp [sampleSchedule]⟩

theorem every_unit_settles_sample : ∃ m ≥ 1, ∃ later,
    (unitsAt sampleErrors {} sampleSchedule m).queue.At 0 later ∧
      isSettled later.status = true := by
  have hjob : (unitsAt sampleErrors {} sampleSchedule 1).queue.At 0
      ⟨.run, .nested .run (.done (.ok ())) fun _ => .done (.ok ()), none, .waiting, false⟩ := rfl
  exact every_unit_settles fair_sampleSchedule hjob

end schedules

section programs

variable {σ ω ε ι α : Type} {errors : UnitErrors ε}

theorem heeds_ofProgram (p : Program σ ω ε ι α) : Heeds errors (Body.ofProgram p) := by
  induction p with
  | pure a => trivial
  | throw e => trivial
  | stmt effect next ih =>
    rw [Body.ofProgram]
    refine ⟨fun r => ?_, fun e _ => trivial⟩
    cases r with
    | error e => trivial
    | ok s => exact ih s
  | draw next ih =>
    rw [Body.ofProgram]
    exact ih

variable [Replay σ ω] {s₀ : σ} {events : List (UnitEvent σ ω ε ι α)}

/-- The body of every job is one that was called. -/
theorem task_called {j : ℕ} {job : Job Access (Body σ ω ε ι α) (Body σ ω ε ι α) (Except ε α)}
    (hjob : (runAll (SqliteUnitOfWork.step errors) (.initial s₀) events).queue.At j job) :
    .call job.key job.task ∈ events := by
  induction events using List.reverseRecOn generalizing job with
  | nil => cases hjob
  | append_singleton events event ih =>
    rw [runAll_append, runAll_cons, runAll_nil] at hjob
    rcases step_cases errors (runAll (SqliteUnitOfWork.step errors) (.initial s₀) events) event with
      hqueue | ⟨access, body, rfl, hqueue⟩ | ⟨i, moved, status, hmoved, -, -, hqueue⟩
    all_goals rw [hqueue] at hjob
    · exact List.mem_append_left _ (ih hjob)
    · rcases at_enqueue.mp hjob with hold | ⟨-, rfl⟩
      · exact List.mem_append_left _ (ih hold)
      · simp
    · obtain ⟨old, hold, rfl⟩ := at_setStatus.mp hjob
      have hcalled := List.mem_append_left [event] (ih hold)
      split_ifs <;> exact hcalled

/-- What a body does depends only on the inputs that it may still draw. -/
theorem exec_congr (p : Program σ ω ε ι α) {s : σ} {inputs inputs' : ℕ → ι} {k : ℕ}
    (h : ∀ n ≥ k, inputs n = inputs' n) :
    (exec p ⟨s, inputs, k⟩).1 = (exec p ⟨s, inputs', k⟩).1 ∧
      (exec p ⟨s, inputs, k⟩).2.store = (exec p ⟨s, inputs', k⟩).2.store := by
  induction p generalizing s k with
  | pure a => exact ⟨rfl, rfl⟩
  | throw e => exact ⟨rfl, rfl⟩
  | stmt effect next ih =>
    simp only [exec]
    cases effect s with
    | error e => exact ⟨rfl, rfl⟩
    | ok ws => exact ih s h
  | draw next ih =>
    have hhere : inputs k = inputs' k := h k le_rfl
    simp only [exec, World.peek, World.tick, hhere]
    exact ih (inputs' k) fun n hn => h n (by omega)

/-- A program that ends well on the write connection does what it does in a transaction. -/
theorem Ends.transacts {p : Program σ ω ε ι α} {s s' : σ} {a : α}
    (h : Ends errors .run (Body.ofProgram p) s (.ok a) s') (inputs : ℕ → ι) (k : ℕ) :
    ∃ inputs, (exec p ⟨s, inputs, k⟩).1 = .ok a ∧ (exec p ⟨s, inputs, k⟩).2.store = s' := by
  induction p generalizing s k with
  | pure b =>
    rw [Body.ofProgram] at h
    cases h
    exact ⟨inputs, rfl, rfl⟩
  | throw e =>
    rw [Body.ofProgram] at h
    cases h
  | stmt effect next ih =>
    rw [Body.ofProgram] at h
    cases h with
    | write _ heffect hnext =>
      obtain ⟨inputs, hexec⟩ := ih s hnext k
      refine ⟨inputs, ?_⟩
      simp only [exec, heffect]
      exact hexec
    | writeFailed e hnext => cases hnext
  | draw next ih =>
    rw [Body.ofProgram] at h
    cases h with
    | draw input hnext =>
      obtain ⟨inputs, hok, hstore⟩ := ih input hnext (k + 1)
      refine ⟨Function.update inputs k input, ?_⟩
      have hlater : ∀ n ≥ k + 1, Function.update inputs k input n = inputs n := fun n hn =>
        Function.update_of_ne (by omega) _ _
      have hsame := exec_congr (next input) (s := s) hlater
      simp only [exec, World.peek, World.tick, Function.update_self]
      exact ⟨hsame.1.trans hok, hsame.2.trans hstore⟩

/-- Transactions one after the other, each with inputs of its own. -/
inductive Transacted (s₀ : σ) : List (Body σ ω ε ι α × Except ε α) → σ → Prop
  | nil : Transacted s₀ [] s₀
  | failed {units s} (body) (e) : Transacted s₀ units s →
      Transacted s₀ (units ++ [(body, .error e)]) s
  | succeeded {units s p inputs a w} : Transacted s₀ units s →
      transact p ⟨s, inputs, 0⟩ = (.ok a, w) →
      Transacted s₀ (units ++ [(Body.ofProgram p, .ok a)]) w.store

variable [Nonempty ι]

theorem Serial.transacted {units : List (Body σ ω ε ι α × Except ε α)} {s : σ}
    (h : Serial errors s₀ units s) (hprograms : ∀ unit ∈ units, ∃ p, unit.1 = Body.ofProgram p) :
    Transacted s₀ units s := by
  induction h with
  | nil => exact .nil
  | failed body e _ ih => exact .failed body e (ih fun unit hunit => hprograms unit (by simp [hunit]))
  | @succeeded units s body a s' _ hends ih =>
    obtain ⟨p, hp⟩ := hprograms (body, .ok a) (by simp)
    obtain rfl : body = Body.ofProgram p := hp
    obtain ⟨inputs, hok, rfl⟩ := hends.transacts (fun _ => Classical.arbitrary ι) 0
    have hruns : transact p ⟨s, inputs, 0⟩ = (.ok a, (exec p ⟨s, inputs, 0⟩).2) :=
      transact_ok_iff.mpr (Prod.ext hok rfl)
    exact .succeeded (ih fun unit hunit => hprograms unit (by simp [hunit])) hruns

/-- Programs on the write connection, however their steps interleave and whatever else is called
meanwhile, leave the store that their transactions leave one after the other. -/
theorem transacted_units (hprograms : ∀ body, .call .run body ∈ events → ∃ p, body = .ofProgram p) :
    let x := runAll (SqliteUnitOfWork.step errors) (.initial s₀) events
    Transacted s₀ (x.queue.results .run) x.committed := by
  have hserial : Serialized errors s₀
      (runAll (SqliteUnitOfWork.step errors) (.initial s₀) events) := by
    refine serialized_initial.runAll fun body hbody => ?_
    obtain ⟨p, rfl⟩ := hprograms body hbody
    exact heeds_ofProgram p
  refine hserial.serial.transacted ?_
  rintro ⟨body, result⟩ hunit
  obtain ⟨j, job, hjob, hkey, rfl⟩ := mem_results hunit
  have hcalled := task_called hjob
  rw [hkey] at hcalled
  exact hprograms job.task hcalled

theorem transacted_units_sample :
    let x := runAll (SqliteUnitOfWork.step sampleErrors) (.initial {})
      [.call .run (.ofProgram (.stmt (fun _ => .ok []) fun _ => .pure ())), .start 0 none,
        .turn 0 () none, .turn 0 () none]
    Transacted ({} : Store) (x.queue.results .run : List (Body Store Write String Unit Unit × _))
      x.committed := by
  refine transacted_units fun body hbody => ?_
  simp only [List.mem_cons, UnitEvent.call.injEq, true_and, reduceCtorEq, List.not_mem_nil,
    or_false] at hbody
  exact ⟨_, hbody⟩

end programs

end AiKanban.Invariants.UnitsOfWork
