import AiKanban.Db.Store
import AiKanban.Db.UnitOfWork
import AiKanban.Transitions.Runs

/-!
# Units of work run one after the other

However the turns of the bodies come, the store is what the bodies that settled well make of it
one after the other in the order of their calls, and a read sees one committed store.
-/
namespace AiKanban.Invariants.UnitsOfWork

open Db Transactions Transitions KeyedQueue SqliteUnitOfWork

section bodies

variable {σ ω ε ι α : Type}

/-- The body makes no more statements. -/
def Silent : Body σ ω ε ι α → Prop
  | .done _ => True
  | .query _ => False
  | .write _ _ => False
  | .draw next => ∀ input, Silent (next input)
  | .nested _ _ next => ∀ e, Silent (next e)

/-- After an error that may have ended its transaction the body makes no more statements. -/
def Heeds (errors : UnitErrors ε) : Body σ ω ε ι α → Prop
  | .done _ => True
  | .query next => (∀ r, Heeds errors (next r)) ∧
      ∀ e, errors.mayEnd e = true → Silent (next (.error e))
  | .write _ next => (∀ r, Heeds errors (next r)) ∧
      ∀ e, errors.mayEnd e = true → Silent (next (.error e))
  | .draw next => ∀ input, Heeds errors (next input)
  | .nested _ _ next => ∀ e, Heeds errors (next e)

variable [Replay σ ω]

/-- How a body may end alone on a store, with any inputs and with statements that fail. -/
inductive Ends (errors : UnitErrors ε) (access : Access) :
    Body σ ω ε ι α → σ → Except ε α → σ → Prop
  | done {r s} : Ends errors access (.done r) s r s
  | query {next s r s'} : Ends errors access (next (.ok s)) s r s' →
      Ends errors access (.query next) s r s'
  | queryFailed {next s r s'} (e) : Ends errors access (next (.error e)) s r s' →
      Ends errors access (.query next) s r s'
  | write {effect next s ws r s'} : access = .run → effect s = .ok ws →
      Ends errors access (next (.ok s)) (replay s ws) r s' →
      Ends errors access (.write effect next) s r s'
  | writeFailed {effect next s r s'} (e) : Ends errors access (next (.error e)) s r s' →
      Ends errors access (.write effect next) s r s'
  | draw {next s r s'} (input) : Ends errors access (next input) s r s' →
      Ends errors access (.draw next) s r s'
  | nested {other inner next s r s'} : Ends errors access (next errors.nested) s r s' →
      Ends errors access (.nested other inner next) s r s'

/-- A body on the read connection leaves the store as it is. -/
theorem Ends.store_eq {errors : UnitErrors ε} {body : Body σ ω ε ι α} {s s' : σ} {r : Except ε α}
    (h : Ends errors .read body s r s') : s' = s := by
  generalize haccess : Access.read = access at h
  induction h with
  | done => rfl
  | write hrun _ _ _ =>
    subst haccess
    cases hrun
  | query _ ih => exact ih
  | queryFailed _ _ ih => exact ih
  | writeFailed _ _ ih => exact ih
  | draw _ _ ih => exact ih
  | nested _ ih => exact ih

/-- Bodies one after the other: one that fails leaves the store as it was. -/
inductive Serial (errors : UnitErrors ε) (s₀ : σ) : List (Body σ ω ε ι α × Except ε α) → σ → Prop
  | nil : Serial errors s₀ [] s₀
  | failed {units s} (body) (e) : Serial errors s₀ units s →
      Serial errors s₀ (units ++ [(body, .error e)]) s
  | succeeded {units s body a s'} : Serial errors s₀ units s → Ends errors .run body s (.ok a) s' →
      Serial errors s₀ (units ++ [(body, .ok a)]) s'

end bodies

section writes

variable {σ ω ε ι α : Type} [Replay σ ω] {errors : UnitErrors ε} {s₀ : σ}
  {x x' : SqliteUnitOfWork σ ω ε ι α} {i : ℕ} {access : Access} {body : Body σ ω ε ι α}
  {job : Job Access (Body σ ω ε ι α) (Body σ ω ε ι α) (Except ε α)}
  {status : JobStatus (Body σ ω ε ι α) (Except ε α)}

/-- What is left of a body ends in the open transaction as the whole does on the committed store;
or the transaction is over, and so are the statements. -/
def Underway (errors : UnitErrors ε) (committed : σ) (task rest : Body σ ω ε ι α)
    (writing : Option σ) : Prop :=
  Heeds errors rest ∧
    ((∃ s, writing = some s ∧
        ∀ r s', Ends errors .run rest s r s' → Ends errors .run task committed r s') ∨
      (writing = none ∧ Silent rest))

/-- What holds of the write connection. -/
structure Serialized (errors : UnitErrors ε) (s₀ : σ) (x : SqliteUnitOfWork σ ω ε ι α) : Prop where
  wf : x.queue.Wf
  heeds : ∀ i job, x.queue.At i job → job.key = .run → Heeds errors job.task
  serial : Serial errors s₀ (x.queue.results .run) x.committed
  underway : ∀ i job rest, x.queue.At i job → job.key = .run → job.status = .running rest →
    Underway errors x.committed job.task rest x.writing
  idle : (∀ i job rest, x.queue.At i job → job.key = .run → job.status ≠ .running rest) →
    x.writing = none

theorem Serialized.call (h : Serialized errors s₀ x) (hbody : access = .run → Heeds errors body) :
    Serialized errors s₀ (x.call false access body) := by
  refine ⟨h.wf.enqueue _ _, fun j job hjob hkey => ?_, ?_, fun j job rest hjob hkey hstatus => ?_,
    fun hnone => h.idle fun j job rest hjob => ?_⟩
  · rcases at_enqueue.mp hjob with hold | ⟨-, rfl⟩
    · exact h.heeds j job hold hkey
    · exact hbody hkey
  · have hsame : (x.queue.enqueue access body).results .run = x.queue.results .run :=
      results_enqueue access
    exact hsame ▸ h.serial
  · rcases at_enqueue.mp hjob with hold | ⟨-, rfl⟩
    · exact h.underway j job rest hold hkey hstatus
    · cases hstatus
  · exact hnone j job rest (at_enqueue.mpr (Or.inl hjob))

section moving

variable (h : Serialized errors s₀ x) (hqueue : x'.queue = x.queue.setStatus i status)
include h hqueue

theorem Serialized.heeds_moved (j : ℕ)
    (other : Job Access (Body σ ω ε ι α) (Body σ ω ε ι α) (Except ε α))
    (hother : x'.queue.At j other) (hkey : other.key = .run) : Heeds errors other.task := by
  rw [hqueue] at hother
  obtain ⟨old, hold, rfl⟩ := at_setStatus.mp hother
  have hheeds := h.heeds j old hold
  split_ifs at hkey ⊢
  · exact hheeds hkey
  · exact hheeds hkey

variable (hmove : x.queue.mayMove i = true) (hjob : x.queue.At i job)
include hmove hjob

/-- The jobs of the read connection do not touch the write connection. -/
theorem Serialized.frame (hkey : job.key ≠ .run) (hcommitted : x'.committed = x.committed)
    (hwriting : x'.writing = x.writing) : Serialized errors s₀ x' := by
  refine ⟨hqueue ▸ h.wf.setStatus hmove status, h.heeds_moved hqueue, ?_,
    fun j other rest hother hokey hstatus => ?_, fun hnone => ?_⟩
  · rw [hqueue, hcommitted, results_setStatus hjob]
    · exact h.serial
    · rw [outcome_of_ne hkey]
      exact outcome_of_ne hkey
  · rw [hqueue] at hother
    obtain ⟨old, hold, rfl⟩ := at_setStatus.mp hother
    by_cases heq : i = j
    · subst heq
      obtain rfl := hjob.unique hold
      exact absurd (by simpa using hokey) hkey
    · simp only [if_neg heq] at hokey hstatus ⊢
      rw [hcommitted, hwriting]
      exact h.underway j old rest hold hokey hstatus
  · rw [hwriting]
    refine h.idle fun j other rest hother hokey hstatus => ?_
    by_cases heq : i = j
    · subst heq
      obtain rfl := hjob.unique hother
      exact hkey hokey
    · refine hnone j other rest ?_ hokey hstatus
      rw [hqueue]
      exact at_setStatus.mpr ⟨other, hother, by rw [if_neg heq]⟩

/-- A body of the write connection goes on. -/
theorem Serialized.goOn {rest : Body σ ω ε ι α} (hstatus : status = .running rest)
    (hkey : job.key = .run) (hcommitted : x'.committed = x.committed)
    (hunderway : Underway errors x.committed job.task rest x'.writing) :
    Serialized errors s₀ x' := by
  have hwf : x'.queue.Wf := hqueue ▸ h.wf.setStatus hmove status
  have hhere : x'.queue.At i { job with status } := by
    rw [hqueue]
    exact at_setStatus.mpr ⟨job, hjob, by simp⟩
  refine ⟨hwf, h.heeds_moved hqueue, ?_, fun j other rest' hother hokey hrunning => ?_,
    fun hnone => absurd hstatus (hnone i _ rest hhere hkey)⟩
  · rw [hqueue, hcommitted, results_setStatus hjob]
    · exact h.serial
    · rw [outcome_of_unsettled (settledBefore_of_mayMove h.wf hmove hjob).1]
      exact outcome_of_unsettled (by rw [hstatus]; rfl)
  · obtain rfl := hwf.running_unique hhere hother (hkey.trans hokey.symm) hstatus hrunning
    obtain rfl := hhere.unique hother
    obtain rfl : rest = rest' := by
      rw [hstatus] at hrunning
      injection hrunning
    rw [hcommitted]
    exact hunderway

/-- A body of the write connection settles. -/
theorem Serialized.settle {result : Except ε α} (hstatus : status = .settled result)
    (hkey : job.key = .run) (hwriting : x'.writing = none)
    (hserial : Serial errors s₀ (x.queue.results .run ++ [(job.task, result)]) x'.committed) :
    Serialized errors s₀ x' := by
  have hwf : x'.queue.Wf := hqueue ▸ h.wf.setStatus hmove status
  refine ⟨hwf, h.heeds_moved hqueue, ?_, fun j other rest hother hokey hrunning => ?_,
    fun _ => hwriting⟩
  · rw [hqueue, hstatus, ← hkey, results_settle h.wf hmove hjob, hkey]
    exact hserial
  · rw [hqueue] at hother
    obtain ⟨old, hold, rfl⟩ := at_setStatus.mp hother
    by_cases heq : i = j
    · subst heq
      simp [hstatus] at hrunning
    · simp only [if_neg heq] at hokey hrunning
      exact absurd hrunning (h.wf.not_running hmove hjob hold heq (hkey.trans hokey.symm) rest)

end moving

/-- A fault of the database leaves a body whose transaction may be over. -/
theorem Underway.faulted {task rest next : Body σ ω ε ι α} {fault : SqliteFault ε}
    (h : Underway errors x.committed task rest x.writing) (hopen : ¬ Silent rest)
    (hheeds : Heeds errors next) (hquiet : errors.mayEnd fault.error = true → Silent next)
    (hends : ∀ s r s', Ends errors .run next s r s' → Ends errors .run rest s r s') :
    Underway errors x.committed task next (x.faulted errors .run fault).writing := by
  refine ⟨hheeds, ?_⟩
  obtain ⟨s, hwriting, hrest⟩ | ⟨-, hnone⟩ := h.2
  · unfold SqliteUnitOfWork.faulted
    split_ifs with hover
    · exact Or.inr ⟨rfl, hquiet (Bool.and_eq_true_iff.mp hover).2⟩
    · exact Or.inl ⟨s, hwriting, fun r s' hnext => hrest r s' (hends s r s' hnext)⟩
  · exact absurd hnone hopen

/-- A statement that goes well, or a step that is none, leads on in the transaction. -/
theorem Underway.next {task rest next : Body σ ω ε ι α} {writing : Option σ} {committed : σ}
    (h : Underway errors committed task rest writing) (hheeds : Heeds errors next)
    (hquiet : Silent rest → Silent next)
    (hends : ∀ s r s', Ends errors .run next s r s' → Ends errors .run rest s r s') :
    Underway errors committed task next writing := by
  refine ⟨hheeds, ?_⟩
  obtain ⟨s, hwriting, hrest⟩ | ⟨hwriting, hnone⟩ := h.2
  · exact Or.inl ⟨s, hwriting, fun r s' hnext => hrest r s' (hends s r s' hnext)⟩
  · exact Or.inr ⟨hwriting, hquiet hnone⟩

theorem Serialized.faulted (h : Serialized errors s₀ x) (hmove : x.queue.mayMove i = true)
    (hjob : x.queue.At i job) (hkey : job.key = .run) {next : Body σ ω ε ι α} {fault : SqliteFault ε}
    (hunderway : Underway errors x.committed job.task next (x.faulted errors .run fault).writing) :
    Serialized errors s₀ ((x.faulted errors .run fault).goOn i next) :=
  h.goOn (by rw [goOn_queue, faulted_queue]) hmove hjob rfl hkey faulted_committed hunderway

/-- The last step of a body of the write connection. -/
theorem Serialized.finish (h : Serialized errors s₀ x) (hmove : x.queue.mayMove i = true)
    (hjob : x.queue.At i job) (hkey : job.key = .run) {result : Except ε α}
    (hunderway : Underway errors x.committed job.task (.done result) x.writing)
    (fault : Option (SqliteFault ε)) : Serialized errors s₀ (x.finish errors i .run result fault) := by
  cases result with
  | error e =>
    exact h.settle rfl hmove hjob rfl hkey rfl (.failed _ e h.serial)
  | ok a =>
    cases fault with
    | some fault => exact h.settle rfl hmove hjob rfl hkey rfl (.failed _ fault.error h.serial)
    | none =>
      unfold SqliteUnitOfWork.finish
      dsimp only
      obtain ⟨s, hwriting, hrest⟩ | ⟨hwriting, -⟩ := hunderway.2
      · rw [if_pos (by simp [SqliteUnitOfWork.inTransaction, hwriting])]
        refine h.settle rfl hmove hjob rfl hkey rfl (.succeeded h.serial (hrest _ _ ?_))
        simp only [SqliteUnitOfWork.commit, SqliteUnitOfWork.settle, hwriting, Option.getD_some]
        exact .done
      · rw [if_neg (by simp [SqliteUnitOfWork.inTransaction, hwriting])]
        exact h.settle rfl hmove hjob rfl hkey hwriting (.failed _ errors.noTransaction h.serial)

theorem Serialized.write (h : Serialized errors s₀ x) (hmove : x.queue.mayMove i = true)
    (hjob : x.queue.At i job) (hkey : job.key = .run) {effect : σ → Except ε (List ω)}
    {next : Except ε σ → Body σ ω ε ι α}
    (hunderway : Underway errors x.committed job.task (.write effect next) x.writing) :
    Serialized errors s₀ (x.write errors i effect next .run) := by
  have hheeds := hunderway.1.1
  obtain ⟨s, hwriting, hrest⟩ | ⟨-, hnone⟩ := hunderway.2
  · have hview : x.view .run = s := by simp [SqliteUnitOfWork.view, hwriting]
    unfold SqliteUnitOfWork.write
    rw [hview]
    cases heffect : effect s with
    | error e =>
      refine h.goOn rfl hmove hjob rfl hkey rfl (hunderway.next (hheeds _) False.elim ?_)
      exact fun _ _ _ hnext => .writeFailed e hnext
    | ok ws =>
      have hsave : x.save (replay s ws) = { x with writing := some (replay s ws) } := by
        simp [SqliteUnitOfWork.save, hwriting]
      dsimp only
      rw [hsave]
      refine h.goOn rfl hmove hjob rfl hkey rfl ⟨hheeds _, Or.inl ⟨_, rfl, ?_⟩⟩
      exact fun r s' hnext => hrest r s' (.write rfl heffect hnext)
  · exact hnone.elim

/-- A step of a body on the write connection. -/
theorem Serialized.turn (h : Serialized errors s₀ x) (hmove : x.queue.mayMove i = true)
    (hjob : x.queue.At i job) (hkey : job.key = .run)
    (hunderway : Underway errors x.committed job.task body x.writing) (input : ι)
    (fault : Option (SqliteFault ε)) : Serialized errors s₀ (x.turn errors i .run input fault body) := by
  cases body with
  | done result => exact h.finish hmove hjob hkey hunderway fault
  | draw next =>
    refine h.goOn rfl hmove hjob rfl hkey rfl (hunderway.next (hunderway.1 input) ?_ ?_)
    · exact fun hquiet => hquiet input
    · exact fun _ _ _ hnext => .draw input hnext
  | nested other inner next =>
    refine h.goOn rfl hmove hjob rfl hkey rfl (hunderway.next (hunderway.1 errors.nested) ?_ ?_)
    · exact fun hquiet => hquiet errors.nested
    · exact fun _ _ _ hnext => .nested hnext
  | query next =>
    obtain ⟨hheeds, hquiet⟩ := hunderway.1
    cases fault with
    | some fault =>
      refine h.faulted hmove hjob hkey ?_
      exact hunderway.faulted id (hheeds _) (hquiet fault.error)
        fun _ _ _ hnext => .queryFailed fault.error hnext
    | none =>
      refine h.goOn rfl hmove hjob rfl hkey rfl ⟨hheeds _, ?_⟩
      obtain ⟨s, hwriting, hrest⟩ | ⟨-, hnone⟩ := hunderway.2
      · have hview : x.view .run = s := by simp [SqliteUnitOfWork.view, hwriting]
        rw [hview]
        exact Or.inl ⟨s, hwriting, fun r s' hnext => hrest r s' (.query hnext)⟩
      · exact hnone.elim
  | write effect next =>
    obtain ⟨hheeds, hquiet⟩ := hunderway.1
    cases fault with
    | some fault =>
      refine h.faulted hmove hjob hkey ?_
      exact hunderway.faulted id (hheeds _) (hquiet fault.error)
        fun _ _ _ hnext => .writeFailed fault.error hnext
    | none => exact h.write hmove hjob hkey hunderway

/-- Nothing runs on the write connection when one of its bodies may begin. -/
theorem Serialized.writing_none (h : Serialized errors s₀ x) (hmove : x.queue.mayMove i = true)
    (hjob : x.queue.At i job) (hkey : job.key = .run) (hwaiting : job.status = .waiting) :
    x.writing = none := by
  refine h.idle fun j other rest hother hokey hrunning => ?_
  by_cases heq : i = j
  · subst heq
    obtain rfl := hjob.unique hother
    simp [hwaiting] at hrunning
  · exact h.wf.not_running hmove hjob hother heq (hkey.trans hokey.symm) rest hrunning

theorem Serialized.start (h : Serialized errors s₀ x) (hmove : x.queue.mayMove i = true)
    (hjob : x.queue.At i job) (hkey : job.key = .run) (hwaiting : job.status = .waiting)
    (fault : Option (SqliteFault ε)) : Serialized errors s₀ (x.start errors i .run job.task fault) := by
  have hwriting : x.writing = none := h.writing_none hmove hjob hkey hwaiting
  cases fault with
  | some fault => exact h.settle rfl hmove hjob rfl hkey hwriting (.failed _ fault.error h.serial)
  | none =>
    unfold SqliteUnitOfWork.start
    dsimp only
    rw [if_neg (by simp [SqliteUnitOfWork.inTransaction, hwriting])]
    refine h.goOn rfl hmove hjob rfl hkey rfl ⟨h.heeds i job hjob hkey, Or.inl ⟨_, rfl, ?_⟩⟩
    exact fun r s' hends => hends

/-- A body on the read connection changes neither the store nor the write connection. -/
theorem Serialized.reads (h : Serialized errors s₀ x) (hmove : x.queue.mayMove i = true)
    (hjob : x.queue.At i job) (hkey : job.key = .read) (hside : x'.SameWrites x i) :
    Serialized errors s₀ x' := by
  obtain ⟨⟨status, hqueue⟩, hcommitted, hwriting⟩ := hside
  exact h.frame hqueue hmove hjob (by simp [hkey]) hcommitted hwriting

theorem Serialized.step (h : Serialized errors s₀ x) {event : UnitEvent σ ω ε ι α}
    (hbody : ∀ body, event = .call .run body → Heeds errors body) :
    Serialized errors s₀ (x.step errors event) := by
  cases event with
  | call access body => exact h.call fun haccess => hbody body (haccess ▸ rfl)
  | start i fault =>
    rcases x.step_start errors i fault with hsame | ⟨job, hjob, hwaiting, hmove, heq⟩
    · rwa [hsame]
    · rw [heq]
      cases hkey : job.key with
      | run => exact h.start hmove hjob hkey hwaiting fault
      | read => exact h.reads hmove hjob hkey (x.sameWrites_start errors i _ fault)
  | turn i input fault =>
    rcases x.step_turn errors i input fault with hsame | ⟨job, rest, hjob, hrunning, heq⟩
    · rwa [hsame]
    · have hmove := mayMove_running hjob hrunning
      rw [heq]
      cases hkey : job.key with
      | run =>
        exact h.turn hmove hjob hkey (h.underway i job rest hjob hkey hrunning) input fault
      | read => exact h.reads hmove hjob hkey (x.sameWrites_turn errors i input fault rest)

theorem serialized_initial : Serialized errors s₀ (.initial s₀ : SqliteUnitOfWork σ ω ε ι α) where
  wf := wf_empty
  heeds _ _ h := by cases h
  serial := .nil
  underway _ _ _ h := by cases h
  idle _ := rfl

theorem Serialized.runAll (h : Serialized errors s₀ x) {events : List (UnitEvent σ ω ε ι α)}
    (hbodies : ∀ body, .call .run body ∈ events → Heeds errors body) :
    Serialized errors s₀ (Transitions.runAll (SqliteUnitOfWork.step errors) x events) := by
  refine runAll_induction (fun y event hy hbody => hy.step hbody) h (admitted_of_forall ?_)
  rintro y event hevent body rfl
  exact hbodies body hevent

end writes

section reads

variable {σ ω ε ι α : Type} [Replay σ ω] {errors : UnitErrors ε} {Seen Seen' : σ → Prop}
  {Fresh : ℕ → Prop} {x x' : SqliteUnitOfWork σ ω ε ι α} {i : ℕ} {access : Access}
  {body : Body σ ω ε ι α} {job : Job Access (Body σ ω ε ι α) (Body σ ω ε ι α) (Except ε α)}
  {status : JobStatus (Body σ ω ε ι α) (Except ε α)}

/-- What is left of a body ends on its snapshot as the whole does, on any store while there is no
snapshot; or the transaction is over, and so are the statements. -/
def Watching (errors : UnitErrors ε) (Seen : σ → Prop) (task rest : Body σ ω ε ι α)
    (reading : Option (Option σ)) : Prop :=
  Heeds errors rest ∧
    ((∃ snapshot, reading = some snapshot ∧ (∀ s, snapshot = some s → Seen s) ∧
        ∀ s r, (∀ t, snapshot = some t → t = s) →
          Ends errors .read rest s r s → Ends errors .read task s r s) ∨
      (reading = none ∧ Silent rest))

/-- What holds of the read connection, and of the jobs that came after some moment; the committed
stores since then are the ones seen. -/
structure Snapshots (errors : UnitErrors ε) (Seen : σ → Prop) (Fresh : ℕ → Prop)
    (x : SqliteUnitOfWork σ ω ε ι α) : Prop where
  wf : x.queue.Wf
  heeds : ∀ i job, x.queue.At i job → job.key = .read → Heeds errors job.task
  seen : Seen x.committed
  watching : ∀ i job rest, Fresh i → x.queue.At i job → job.key = .read →
    job.status = .running rest → Watching errors Seen job.task rest x.reading
  answered : ∀ i job a, Fresh i → x.queue.At i job → job.key = .read →
    job.status = .settled (.ok a) → ∃ s, Seen s ∧ Ends errors .read job.task s (.ok a) s
  idle : (∀ i job rest, x.queue.At i job → job.key = .read → job.status ≠ .running rest) →
    x.reading = none

theorem Snapshots.call (h : Snapshots errors Seen Fresh x)
    (hbody : access = .read → Heeds errors body) :
    Snapshots errors Seen Fresh (x.call false access body) := by
  refine ⟨h.wf.enqueue _ _, fun j job hjob hkey => ?_, h.seen,
    fun j job rest hfresh hjob hkey hstatus => ?_, fun j job a hfresh hjob hkey hstatus => ?_,
    fun hnone => h.idle fun j job rest hjob => hnone j job rest (at_enqueue.mpr (Or.inl hjob))⟩
  · rcases at_enqueue.mp hjob with hold | ⟨-, rfl⟩
    · exact h.heeds j job hold hkey
    · exact hbody hkey
  · rcases at_enqueue.mp hjob with hold | ⟨-, rfl⟩
    · exact h.watching j job rest hfresh hold hkey hstatus
    · cases hstatus
  · rcases at_enqueue.mp hjob with hold | ⟨-, rfl⟩
    · exact h.answered j job a hfresh hold hkey hstatus
    · cases hstatus

theorem Snapshots.mono (h : Snapshots errors Seen Fresh x) (hseen : ∀ s, Seen s → Seen' s) :
    Snapshots errors Seen' Fresh x := by
  refine ⟨h.wf, h.heeds, hseen _ h.seen, fun j job rest hfresh hjob hkey hstatus => ?_,
    fun j job a hfresh hjob hkey hstatus => ?_, h.idle⟩
  · obtain ⟨hheeds, hwatching⟩ := h.watching j job rest hfresh hjob hkey hstatus
    refine ⟨hheeds, ?_⟩
    obtain ⟨snapshot, hreading, hsnapshot, hends⟩ | hquiet := hwatching
    · exact Or.inl ⟨snapshot, hreading, fun s hs => hseen s (hsnapshot s hs), hends⟩
    · exact Or.inr hquiet
  · obtain ⟨s, hs, hends⟩ := h.answered j job a hfresh hjob hkey hstatus
    exact ⟨s, hseen s hs, hends⟩

section moving

variable (h : Snapshots errors Seen Fresh x) (hqueue : x'.queue = x.queue.setStatus i status)
  (hmove : x.queue.mayMove i = true) (hjob : x.queue.At i job) (hseen : Seen x'.committed)
include h hqueue hmove hjob hseen

/-- One job moves; what its status and the read transaction then are is left to say. -/
theorem Snapshots.moved
    (hrunning : ∀ rest, Fresh i → job.key = .read → status = .running rest →
      Watching errors Seen job.task rest x'.reading)
    (hsettled : ∀ a, Fresh i → job.key = .read → status = .settled (.ok a) →
      ∃ s, Seen s ∧ Ends errors .read job.task s (.ok a) s)
    (hother : ∀ j other rest, i ≠ j → x.queue.At j other → other.key = .read →
      other.status = .running rest → x'.reading = x.reading)
    (hidle : (∀ j other rest, x'.queue.At j other → other.key = .read →
      other.status ≠ .running rest) → x'.reading = none) :
    Snapshots errors Seen Fresh x' := by
  refine ⟨hqueue ▸ h.wf.setStatus hmove status, fun j other hat hokey => ?_, hseen,
    fun j other rest hfresh hat hokey hstatus => ?_, fun j other a hfresh hat hokey hstatus => ?_,
    hidle⟩
  all_goals
    rw [hqueue] at hat
    obtain ⟨old, hold, rfl⟩ := at_setStatus.mp hat
  · have hheeds := h.heeds j old hold
    split_ifs at hokey ⊢
    · exact hheeds hokey
    · exact hheeds hokey
  · by_cases heq : i = j
    · subst heq
      obtain rfl := hjob.unique hold
      simp only [if_true] at hokey hstatus ⊢
      exact hrunning rest hfresh hokey hstatus
    · simp only [if_neg heq] at hokey hstatus ⊢
      rw [hother j old rest heq hold hokey hstatus]
      exact h.watching j old rest hfresh hold hokey hstatus
  · by_cases heq : i = j
    · subst heq
      obtain rfl := hjob.unique hold
      simp only [if_true] at hokey hstatus ⊢
      exact hsettled a hfresh hokey hstatus
    · simp only [if_neg heq] at hokey hstatus ⊢
      exact h.answered j old a hfresh hold hokey hstatus

/-- The jobs of the write connection do not touch the read connection. -/
theorem Snapshots.frame (hkey : job.key ≠ .read) (hreading : x'.reading = x.reading) :
    Snapshots errors Seen Fresh x' := by
  refine h.moved hqueue hmove hjob hseen (fun _ _ hread => absurd hread hkey)
    (fun _ _ hread => absurd hread hkey) (fun _ _ _ _ _ _ _ => hreading) fun hnone => ?_
  rw [hreading]
  refine h.idle fun j other rest hother hokey hstatus => ?_
  have hne : i ≠ j := by
    rintro rfl
    obtain rfl := hjob.unique hother
    exact hkey hokey
  refine hnone j other rest ?_ hokey hstatus
  rw [hqueue]
  exact at_setStatus.mpr ⟨other, hother, by rw [if_neg hne]⟩

variable (hkey : job.key = .read)
include hkey

/-- A body of the read connection goes on. -/
theorem Snapshots.goOn {rest : Body σ ω ε ι α} (hstatus : status = .running rest)
    (hwatching : Fresh i → Watching errors Seen job.task rest x'.reading) :
    Snapshots errors Seen Fresh x' := by
  refine h.moved hqueue hmove hjob hseen (fun rest' hfresh _ hrest => ?_) (fun _ _ _ hdone => ?_)
    (fun j other rest' hne hother hokey hrunning => ?_) fun hnone => ?_
  · obtain rfl : rest = rest' := by
      rw [hstatus] at hrest
      injection hrest
    exact hwatching hfresh
  · rw [hstatus] at hdone
    cases hdone
  · exact absurd hrunning (h.wf.not_running hmove hjob hother hne (hkey.trans hokey.symm) rest')
  · refine absurd hstatus (hnone i { job with status } rest ?_ hkey)
    rw [hqueue]
    exact at_setStatus.mpr ⟨job, hjob, by simp⟩

/-- A body of the read connection settles. -/
theorem Snapshots.settle {result : Except ε α} (hstatus : status = .settled result)
    (hreading : x'.reading = none)
    (hanswer : ∀ a, Fresh i → result = .ok a →
      ∃ s, Seen s ∧ Ends errors .read job.task s (.ok a) s) :
    Snapshots errors Seen Fresh x' := by
  refine h.moved hqueue hmove hjob hseen (fun _ _ _ hrest => ?_) (fun a hfresh _ hdone => ?_)
    (fun j other rest' hne hother hokey hrunning => ?_) fun _ => hreading
  · rw [hstatus] at hrest
    cases hrest
  · rw [hstatus] at hdone
    exact hanswer a hfresh (by injection hdone)
  · exact absurd hrunning (h.wf.not_running hmove hjob hother hne (hkey.trans hokey.symm) rest')

end moving

theorem Snapshots.faulted (h : Snapshots errors Seen Fresh x) (hmove : x.queue.mayMove i = true)
    (hjob : x.queue.At i job) (hkey : job.key = .read) {rest next : Body σ ω ε ι α}
    {fault : SqliteFault ε}
    (hwatching : Fresh i → Watching errors Seen job.task rest x.reading) (hopen : ¬ Silent rest)
    (hheeds : Fresh i → Heeds errors next ∧ (errors.mayEnd fault.error = true → Silent next))
    (hends : ∀ s r, Ends errors .read next s r s → Ends errors .read rest s r s) :
    Snapshots errors Seen Fresh ((x.faulted errors .read fault).goOn i next) := by
  refine h.goOn (by rw [goOn_queue, faulted_queue]) hmove hjob ?_ hkey rfl fun hfresh =>
    ⟨(hheeds hfresh).1, ?_⟩
  · have hsame : (x.faulted errors .read fault).committed = x.committed := faulted_committed
    exact hsame ▸ h.seen
  · obtain ⟨snapshot, hreading, hsnapshot, hrest⟩ | ⟨-, hnone⟩ := (hwatching hfresh).2
    · unfold SqliteUnitOfWork.faulted
      split_ifs with hover
      · exact Or.inr ⟨rfl, (hheeds hfresh).2 (Bool.and_eq_true_iff.mp hover).2⟩
      · exact Or.inl ⟨snapshot, hreading, hsnapshot,
          fun s r hs hnext => hrest s r hs (hends s r hnext)⟩
    · exact absurd hnone hopen

/-- A step that leaves the read transaction as it is. -/
theorem Watching.next {task rest next : Body σ ω ε ι α} {reading : Option (Option σ)}
    (h : Watching errors Seen task rest reading) (hheeds : Heeds errors next)
    (hquiet : Silent rest → Silent next)
    (hends : ∀ s r, Ends errors .read next s r s → Ends errors .read rest s r s) :
    Watching errors Seen task next reading := by
  refine ⟨hheeds, ?_⟩
  obtain ⟨snapshot, hreading, hsnapshot, hrest⟩ | ⟨hreading, hnone⟩ := h.2
  · exact Or.inl ⟨snapshot, hreading, hsnapshot,
      fun s r hs hnext => hrest s r hs (hends s r hnext)⟩
  · exact Or.inr ⟨hreading, hquiet hnone⟩

theorem Snapshots.finish (h : Snapshots errors Seen Fresh x) (hmove : x.queue.mayMove i = true)
    (hjob : x.queue.At i job) (hkey : job.key = .read) {result : Except ε α}
    (hwatching : Fresh i → Watching errors Seen job.task (.done result) x.reading)
    (fault : Option (SqliteFault ε)) :
    Snapshots errors Seen Fresh (x.finish errors i .read result fault) := by
  cases result with
  | error e => exact h.settle rfl hmove hjob h.seen hkey rfl rfl fun a _ hok => by cases hok
  | ok a =>
    cases fault with
    | some fault => exact h.settle rfl hmove hjob h.seen hkey rfl rfl fun a _ hok => by cases hok
    | none =>
      unfold SqliteUnitOfWork.finish
      dsimp only
      split_ifs with hin
      · refine h.settle rfl hmove hjob h.seen hkey rfl rfl fun b hfresh hok => ?_
        obtain rfl : a = b := by injection hok
        obtain ⟨snapshot, hreading, hsnapshot, hrest⟩ | ⟨hreading, -⟩ := (hwatching hfresh).2
        · cases snapshot with
          | none => exact ⟨_, h.seen, hrest _ _ (fun t ht => by cases ht) .done⟩
          | some s =>
            refine ⟨s, hsnapshot s rfl, hrest s _ (fun t ht => ?_) .done⟩
            exact (Option.some.inj ht).symm
        · simp [SqliteUnitOfWork.inTransaction, hreading] at hin
      · have hreading : x.reading = none := by
          simpa [SqliteUnitOfWork.inTransaction] using hin
        exact h.settle rfl hmove hjob h.seen hkey rfl hreading fun b _ hok => by cases hok

/-- A step of a body on the read connection. -/
theorem Snapshots.turn (h : Snapshots errors Seen Fresh x) (hmove : x.queue.mayMove i = true)
    (hjob : x.queue.At i job) (hkey : job.key = .read)
    (hwatching : Fresh i → Watching errors Seen job.task body x.reading) (input : ι)
    (fault : Option (SqliteFault ε)) :
    Snapshots errors Seen Fresh (x.turn errors i .read input fault body) := by
  have hheeds : Fresh i → Heeds errors body := fun hfresh => (hwatching hfresh).1
  cases body with
  | done result => exact h.finish hmove hjob hkey hwatching fault
  | draw next =>
    refine h.goOn rfl hmove hjob h.seen hkey rfl fun hfresh =>
      (hwatching hfresh).next (hheeds hfresh input) ?_ ?_
    · exact fun hquiet => hquiet input
    · exact fun _ _ hnext => .draw input hnext
  | nested other inner next =>
    refine h.goOn rfl hmove hjob h.seen hkey rfl fun hfresh =>
      (hwatching hfresh).next (hheeds hfresh errors.nested) ?_ ?_
    · exact fun hquiet => hquiet errors.nested
    · exact fun _ _ hnext => .nested hnext
  | query next =>
    cases fault with
    | some fault =>
      exact h.faulted hmove hjob hkey hwatching id
        (fun hfresh => ⟨(hheeds hfresh).1 _, (hheeds hfresh).2 fault.error⟩) fun _ _ hnext => .queryFailed fault.error hnext
    | none =>
      refine h.goOn rfl hmove hjob h.seen hkey rfl fun hfresh => ⟨(hheeds hfresh).1 _, ?_⟩
      obtain ⟨snapshot, hreading, hsnapshot, hrest⟩ | ⟨-, hnone⟩ := (hwatching hfresh).2
      · have hview : x.view .read = snapshot.getD x.committed := by
          simp [SqliteUnitOfWork.view, hreading]
        have hlooked : ((x.look .read).goOn i (next (.ok (x.view .read)))).reading =
            some (some (x.view .read)) := by
          simp [SqliteUnitOfWork.goOn, SqliteUnitOfWork.look, hreading]
        refine Or.inl ⟨some (x.view .read), hlooked, ?_, ?_⟩
        · intro s hs
          obtain rfl := Option.some.inj hs
          rw [hview]
          cases snapshot with
          | none => exact h.seen
          | some s => exact hsnapshot s rfl
        · intro s r hs hnext
          obtain rfl := hs _ rfl
          refine hrest _ r (fun t ht => ?_) (.query hnext)
          rw [hview, ht, Option.getD_some]
      · exact hnone.elim
  | write effect next =>
    cases fault with
    | some fault =>
      exact h.faulted hmove hjob hkey hwatching id
        (fun hfresh => ⟨(hheeds hfresh).1 _, (hheeds hfresh).2 fault.error⟩) fun _ _ hnext => .writeFailed fault.error hnext
    | none =>
      refine h.goOn rfl hmove hjob h.seen hkey rfl fun hfresh =>
        (hwatching hfresh).next ((hheeds hfresh).1 _) False.elim ?_
      exact fun _ _ hnext => .writeFailed errors.readonly hnext

theorem Snapshots.start (h : Snapshots errors Seen Fresh x) (hmove : x.queue.mayMove i = true)
    (hjob : x.queue.At i job) (hkey : job.key = .read) (hwaiting : job.status = .waiting)
    (fault : Option (SqliteFault ε)) :
    Snapshots errors Seen Fresh (x.start errors i .read job.task fault) := by
  have hreading : x.reading = none := by
    refine h.idle fun j other rest hother hokey hrunning => ?_
    by_cases heq : i = j
    · subst heq
      obtain rfl := hjob.unique hother
      simp [hwaiting] at hrunning
    · exact h.wf.not_running hmove hjob hother heq (hkey.trans hokey.symm) rest hrunning
  cases fault with
  | some fault => exact h.settle rfl hmove hjob h.seen hkey rfl hreading fun a _ hok => by cases hok
  | none =>
    unfold SqliteUnitOfWork.start
    dsimp only
    rw [if_neg (by simp [SqliteUnitOfWork.inTransaction, hreading])]
    refine h.goOn rfl hmove hjob h.seen hkey rfl fun _ => ⟨h.heeds i job hjob hkey, Or.inl ?_⟩
    refine ⟨none, rfl, ?_, fun s r _ hends => hends⟩
    intro s hs
    cases hs

/-- A body on the write connection does not change the read connection. -/
theorem Snapshots.writes (h : Snapshots errors Seen Fresh x) (hmove : x.queue.mayMove i = true)
    (hjob : x.queue.At i job) (hkey : job.key = .run) (hseen : Seen x'.committed)
    (hside : x'.SameReads x i) : Snapshots errors Seen Fresh x' := by
  obtain ⟨⟨status, hqueue⟩, hreading⟩ := hside
  exact h.frame hqueue hmove hjob hseen (by simp [hkey]) hreading

theorem Snapshots.step (h : Snapshots errors Seen Fresh x) {event : UnitEvent σ ω ε ι α}
    (hbody : ∀ body, event = .call .read body → Heeds errors body)
    (hseen : Seen (x.step errors event).committed) :
    Snapshots errors Seen Fresh (x.step errors event) := by
  cases event with
  | call access body => exact h.call fun haccess => hbody body (haccess ▸ rfl)
  | start i fault =>
    rcases x.step_start errors i fault with hsame | ⟨job, hjob, hwaiting, hmove, heq⟩
    · rwa [hsame]
    · rw [heq] at hseen ⊢
      cases hkey : job.key with
      | run =>
        rw [hkey] at hseen
        exact h.writes hmove hjob hkey hseen (x.sameReads_start errors i _ fault)
      | read => exact h.start hmove hjob hkey hwaiting fault
  | turn i input fault =>
    rcases x.step_turn errors i input fault with hsame | ⟨job, rest, hjob, hrunning, heq⟩
    · rwa [hsame]
    · have hmove := mayMove_running hjob hrunning
      rw [heq] at hseen ⊢
      cases hkey : job.key with
      | run =>
        rw [hkey] at hseen
        exact h.writes hmove hjob hkey hseen (x.sameReads_turn errors i input fault rest)
      | read =>
        refine h.turn hmove hjob hkey (fun hfresh => ?_) input fault
        exact h.watching i job rest hfresh hjob hkey hrunning

/-- The stores that were committed along a run. -/
def CommittedAlong (errors : UnitErrors ε) (x : SqliteUnitOfWork σ ω ε ι α)
    (events : List (UnitEvent σ ω ε ι α)) (s : σ) : Prop :=
  ∃ early, early <+: events ∧ s = (runAll (SqliteUnitOfWork.step errors) x early).committed

theorem Snapshots.runAll {events : List (UnitEvent σ ω ε ι α)}
    (h : Snapshots errors (CommittedAlong errors x []) Fresh x)
    (hbodies : ∀ body, .call .read body ∈ events → Heeds errors body) :
    Snapshots errors (CommittedAlong errors x events) Fresh
      (Transitions.runAll (SqliteUnitOfWork.step errors) x events) := by
  induction events using List.reverseRecOn with
  | nil => exact h
  | append_singleton events event ih =>
    have hprior := ih fun body hbody => hbodies body (List.mem_append_left _ hbody)
    rw [runAll_append]
    refine (hprior.mono fun s hs => ?_).step (fun body hbody => hbodies body (by simp [hbody])) ?_
    · obtain ⟨early, hearly, rfl⟩ := hs
      exact ⟨early, hearly.trans (List.prefix_append _ _), rfl⟩
    · exact ⟨events ++ [event], List.prefix_rfl, by rw [runAll_append]; rfl⟩

theorem snapshots_initial (s : σ) :
    Snapshots errors (CommittedAlong errors (.initial s : SqliteUnitOfWork σ ω ε ι α) [])
      (fun _ => False) (.initial s : SqliteUnitOfWork σ ω ε ι α) where
  wf := wf_empty
  heeds _ _ h := by cases h
  seen := ⟨[], List.prefix_rfl, rfl⟩
  watching _ _ _ h := h.elim
  answered _ _ _ h := h.elim
  idle _ := rfl

/-- From any moment on, the jobs that have not begun yet see what is committed from then on. -/
theorem Snapshots.refresh (h : Snapshots errors Seen Fresh x) :
    Snapshots errors (CommittedAlong errors x [])
      (fun i => ∀ job, x.queue.At i job → job.status = .waiting) x where
  wf := h.wf
  heeds := h.heeds
  seen := ⟨[], List.prefix_rfl, rfl⟩
  watching i job rest hfresh hjob _ hrunning := by simp [hfresh job hjob] at hrunning
  answered i job a hfresh hjob _ hsettled := by simp [hfresh job hjob] at hsettled
  idle := h.idle

end reads

section units

variable {σ ω ε ι α : Type} [Replay σ ω] {errors : UnitErrors ε} {s₀ : σ}
  {events before after : List (UnitEvent σ ω ε ι α)}

/-- In every run, the committed store is what the bodies that settled on the write connection make
of it one after the other, in the order of their calls; the bodies of a connection run one at a
time in that order, and no transaction stays open. -/
theorem serial_units (hbodies : ∀ access body, .call access body ∈ events → Heeds errors body) :
    let x := runAll (SqliteUnitOfWork.step errors) (.initial s₀) events
    Serial errors s₀ (x.queue.results .run) x.committed ∧
      (∀ i j job other, x.queue.At i job → x.queue.At j other → i < j → job.key = other.key →
        other.status ≠ .waiting → isSettled job.status = true) ∧
      ((∀ i job rest, x.queue.At i job → job.status ≠ .running rest) →
        x.writing = none ∧ x.reading = none) := by
  have hwrites : Serialized errors s₀ (runAll (SqliteUnitOfWork.step errors) (.initial s₀) events) :=
    serialized_initial.runAll (hbodies .run)
  have hreads := Snapshots.runAll (snapshots_initial s₀) (hbodies .read)
  refine ⟨hwrites.serial, fun i j job other hi hj hlt hkey hstarted => ?_, fun hnone => ⟨?_, ?_⟩⟩
  · exact hwrites.wf.settled_of_lt hi hj hlt hkey hstarted
  · exact hwrites.idle fun i job rest hjob _ => hnone i job rest hjob
  · exact hreads.idle fun i job rest hjob _ => hnone i job rest hjob

def sampleErrors : UnitErrors String where
  nested := "nested UnitOfWork.run()/read()"
  readonly := "attempt to write a readonly database"
  transactionActive := "cannot start a transaction within a transaction"
  noTransaction := "cannot commit - no transaction is active"
  mayEnd _ := true

/-- A write that opens another unit of work inside itself, and a read. -/
def sampleCalls : List (UnitEvent Store Write String Unit Unit) :=
  [.call .run (.write (fun _ => .ok []) fun _ => .nested .run (.done (.ok ())) fun _ => .done (.ok ())),
    .call .read (.query fun _ => .done (.ok ()))]

/-- The two take their turns. -/
def sampleTurns : List (UnitEvent Store Write String Unit Unit) :=
  [.start 0 none, .start 1 none, .turn 0 () none, .turn 1 () none, .turn 0 () none, .turn 1 () none,
    .turn 0 () none]

theorem heeds_sample (access : Access) (body : Body Store Write String Unit Unit)
    (h : .call access body ∈ sampleCalls ++ sampleTurns) : Heeds sampleErrors body := by
  simp only [sampleCalls, sampleTurns, List.cons_append, List.nil_append, List.mem_cons,
    UnitEvent.call.injEq, reduceCtorEq, List.not_mem_nil, or_false] at h
  rcases h with ⟨-, rfl⟩ | ⟨-, rfl⟩ <;> simp [Heeds, Silent]

theorem serial_units_sample :
    let x := runAll (SqliteUnitOfWork.step sampleErrors) (.initial {}) (sampleCalls ++ sampleTurns)
    Serial sampleErrors {} (x.queue.results .run) x.committed :=
  (serial_units heeds_sample).1

/-- A read that begins after some moment and succeeds saw one store, committed at that moment or
later: what the bodies settled by then on the write connection make one after the other. -/
theorem read_one_store
    (hbodies : ∀ access body, .call access body ∈ before ++ after → Heeds errors body)
    {i : ℕ} {job : Job Access (Body σ ω ε ι α) (Body σ ω ε ι α) (Except ε α)} {a : α}
    (hbegun : ∀ old, (runAll (SqliteUnitOfWork.step errors) (.initial s₀) before).queue.At i old →
      old.status = .waiting)
    (hjob : (runAll (SqliteUnitOfWork.step errors) (.initial s₀) (before ++ after)).queue.At i job)
    (hkey : job.key = .read) (hresult : job.status = .settled (.ok a)) :
    ∃ early, early <+: after ∧
      let y := runAll (SqliteUnitOfWork.step errors) (.initial s₀) (before ++ early)
      Ends errors .read job.task y.committed (.ok a) y.committed ∧
        Serial errors s₀ (y.queue.results .run) y.committed := by
  have hreads := Snapshots.runAll (snapshots_initial s₀)
    fun body hbody => hbodies .read body (List.mem_append_left after hbody)
  have hlater := hreads.refresh.runAll
    fun body hbody => hbodies .read body (List.mem_append_right before hbody)
  rw [runAll_append] at hjob
  obtain ⟨_, ⟨early, hearly, rfl⟩, hends⟩ := hlater.answered i job a hbegun hjob hkey hresult
  have hwrites : Serialized errors s₀
      (runAll (SqliteUnitOfWork.step errors) (.initial s₀) (before ++ early)) := by
    refine serialized_initial.runAll fun body hbody => hbodies .run body ?_
    rcases List.mem_append.mp hbody with hbefore | hin
    · exact List.mem_append_left _ hbefore
    · exact List.mem_append_right _ (hearly.subset hin)
  refine ⟨early, hearly, ?_, hwrites.serial⟩
  rw [runAll_append]
  exact hends

theorem read_one_store_sample : ∃ early, early <+: sampleTurns ∧
    let y := runAll (SqliteUnitOfWork.step sampleErrors) (.initial {}) (sampleCalls ++ early)
    Ends sampleErrors .read (.query fun _ => .done (.ok ()) : Body Store Write String Unit Unit)
        y.committed (.ok ()) y.committed ∧
      Serial sampleErrors {} (y.queue.results .run) y.committed := by
  have hjob : (runAll (SqliteUnitOfWork.step sampleErrors) (.initial {})
      (sampleCalls ++ sampleTurns)).queue.At 1
        ⟨.read, .query fun _ => .done (.ok ()), none, .settled (.ok ()), false⟩ := rfl
  refine read_one_store heeds_sample (fun old hold => ?_) hjob rfl rfl
  obtain rfl := Option.some.inj hold
  rfl

end units

end AiKanban.Invariants.UnitsOfWork
