import AiKanban.Transactions.Program
import AiKanban.Transitions.KeyedQueue

/-!
# The unit of work on SQLite

Bodies run in transactions on two shared connections, one that writes and one that only reads.
Each connection has a queue of its own, so that no statement of another body gets into an open
transaction.
-/
namespace AiKanban.Db

open Transactions Transitions

/-- The connection that a body asks for. -/
inductive Access where
  | run
  | read
deriving DecidableEq

/-- What a body does between its awaits. It sees the failure of a statement, and may catch it. -/
inductive Body (σ ω ε ι α : Type) where
  | done (result : Except ε α)
  | query (next : Except ε σ → Body σ ω ε ι α)
  | write (effect : σ → Except ε (List ω)) (next : Except ε σ → Body σ ω ε ι α)
  | draw (next : ι → Body σ ω ε ι α)
  /-- A unit of work that the body opens inside itself. -/
  | nested (access : Access) (inner : Body σ ω ε ι α) (next : ε → Body σ ω ε ι α)

/-- The errors of the adapter and of SQLite, and which of them may end a transaction. -/
structure UnitErrors (ε : Type) where
  nested : ε
  readonly : ε
  transactionActive : ε
  noTransaction : ε
  mayEnd : ε → Bool

/-- A failure of the database itself: the disk is full, say. -/
structure SqliteFault (ε : Type) where
  error : ε
  rolledBack : Bool

/-- The open transaction of the write connection with its own writes; that of the read
connection, with its snapshot from the first statement on. -/
structure SqliteUnitOfWork (σ ω ε ι α : Type) where
  committed : σ
  writing : Option σ
  reading : Option (Option σ)
  queue : KeyedQueue Access (Body σ ω ε ι α) (Body σ ω ε ι α) (Except ε α)

inductive UnitEvent (σ ω ε ι α : Type) where
  | call (access : Access) (body : Body σ ω ε ι α)
  /-- A body's turn comes, with `BEGIN` first. -/
  | start (i : ℕ) (fault : Option (SqliteFault ε))
  | turn (i : ℕ) (input : ι) (fault : Option (SqliteFault ε))

namespace SqliteUnitOfWork

variable {σ ω ε ι α : Type} (errors : UnitErrors ε) (x : SqliteUnitOfWork σ ω ε ι α)

def initial (s : σ) : SqliteUnitOfWork σ ω ε ι α := ⟨s, none, none, KeyedQueue.empty⟩

/-- `run` and `read`. The caller of a nested one gets an error instead. -/
def call (inRun : Bool) (access : Access) (body : Body σ ω ε ι α) : SqliteUnitOfWork σ ω ε ι α :=
  if inRun then x else { x with queue := x.queue.enqueue access body }

def goOn (i : ℕ) (body : Body σ ω ε ι α) : SqliteUnitOfWork σ ω ε ι α :=
  { x with queue := x.queue.setStatus i (.running body) }

def settle (i : ℕ) (result : Except ε α) : SqliteUnitOfWork σ ω ε ι α :=
  { x with queue := x.queue.setStatus i (.settled result) }

def inTransaction : Access → Bool
  | .run => x.writing.isSome
  | .read => x.reading.isSome

/-- `BEGIN IMMEDIATE` on the write connection, a deferred `BEGIN` on the other. -/
def begin : Access → SqliteUnitOfWork σ ω ε ι α
  | .run => { x with writing := some x.committed }
  | .read => { x with reading := some none }

def rollback : Access → SqliteUnitOfWork σ ω ε ι α
  | .run => { x with writing := none }
  | .read => { x with reading := none }

def commit : Access → SqliteUnitOfWork σ ω ε ι α
  | .run => { x with committed := x.writing.getD x.committed, writing := none }
  | .read => { x with reading := none }

/-- What a statement sees. -/
def view : Access → σ
  | .run => x.writing.getD x.committed
  | .read => x.reading.join.getD x.committed

/-- The first statement of a read transaction takes the snapshot. -/
def look : Access → SqliteUnitOfWork σ ω ε ι α
  | .run => x
  | .read => { x with reading := x.reading.map fun _ => some (x.view .read) }

/-- A write outside of a transaction commits by itself. -/
def save (s : σ) : SqliteUnitOfWork σ ω ε ι α :=
  if x.writing.isSome then { x with writing := some s } else { x with committed := s }

def faulted (access : Access) (fault : SqliteFault ε) : SqliteUnitOfWork σ ω ε ι α :=
  if fault.rolledBack && errors.mayEnd fault.error then x.rollback access else x

section

variable {x} {errors} {i : ℕ} {access : Access} {body : Body σ ω ε ι α} {fault : SqliteFault ε}

@[simp] theorem goOn_queue : (x.goOn i body).queue = x.queue.setStatus i (.running body) := rfl

@[simp] theorem faulted_queue : (x.faulted errors access fault).queue = x.queue := by
  unfold faulted rollback
  cases access <;> split_ifs <;> rfl

@[simp] theorem faulted_committed : (x.faulted errors access fault).committed = x.committed := by
  unfold faulted rollback
  cases access <;> split_ifs <;> rfl

@[simp] theorem faulted_writing : (x.faulted errors .read fault).writing = x.writing := by
  unfold faulted rollback
  split_ifs <;> rfl

@[simp] theorem faulted_reading : (x.faulted errors .run fault).reading = x.reading := by
  unfold faulted rollback
  split_ifs <;> rfl

end

def start (i : ℕ) (access : Access) (body : Body σ ω ε ι α) (fault : Option (SqliteFault ε)) :
    SqliteUnitOfWork σ ω ε ι α :=
  match fault with
  | some fault => x.settle i (.error fault.error)
  | none =>
      if x.inTransaction access then x.settle i (.error errors.transactionActive)
      else (x.begin access).goOn i body

/-- `COMMIT`, and `ROLLBACK` for a body that throws or cannot commit. -/
def finish (i : ℕ) (access : Access) (result : Except ε α) (fault : Option (SqliteFault ε)) :
    SqliteUnitOfWork σ ω ε ι α :=
  match result, fault with
  | .error e, _ => (x.rollback access).settle i (.error e)
  | .ok _, some fault => (x.rollback access).settle i (.error fault.error)
  | .ok a, none =>
      if x.inTransaction access then (x.commit access).settle i (.ok a)
      else x.settle i (.error errors.noTransaction)

/-- The status of one job apart, only the read connection has changed. -/
def SameWrites (x' x : SqliteUnitOfWork σ ω ε ι α) (i : ℕ) : Prop :=
  (∃ status, x'.queue = x.queue.setStatus i status) ∧ x'.committed = x.committed ∧
    x'.writing = x.writing

theorem sameWrites_start (i : ℕ) (body : Body σ ω ε ι α) (fault : Option (SqliteFault ε)) :
    (x.start errors i .read body fault).SameWrites x i := by
  unfold start
  cases fault with
  | some fault => exact ⟨⟨_, rfl⟩, rfl, rfl⟩
  | none =>
    dsimp only
    split_ifs
    · exact ⟨⟨_, rfl⟩, rfl, rfl⟩
    · exact ⟨⟨_, rfl⟩, rfl, rfl⟩

/-- The status of one job apart, only the write connection and the store have changed. -/
def SameReads (x' x : SqliteUnitOfWork σ ω ε ι α) (i : ℕ) : Prop :=
  (∃ status, x'.queue = x.queue.setStatus i status) ∧ x'.reading = x.reading

theorem sameReads_start (i : ℕ) (body : Body σ ω ε ι α) (fault : Option (SqliteFault ε)) :
    (x.start errors i .run body fault).SameReads x i := by
  unfold start
  cases fault with
  | some fault => exact ⟨⟨_, rfl⟩, rfl⟩
  | none =>
    dsimp only
    split_ifs
    · exact ⟨⟨_, rfl⟩, rfl⟩
    · exact ⟨⟨_, rfl⟩, rfl⟩

variable [Replay σ ω]

/-- A write on a connection; the one that only reads rejects it. -/
def write (i : ℕ) (effect : σ → Except ε (List ω)) (next : Except ε σ → Body σ ω ε ι α) :
    Access → SqliteUnitOfWork σ ω ε ι α
  | .read => x.goOn i (next (.error errors.readonly))
  | .run =>
      match effect (x.view .run) with
      | .error e => x.goOn i (next (.error e))
      | .ok ws => (x.save (replay (x.view .run) ws)).goOn i (next (.ok (x.view .run)))

def turn (i : ℕ) (access : Access) (input : ι) (fault : Option (SqliteFault ε)) :
    Body σ ω ε ι α → SqliteUnitOfWork σ ω ε ι α
  | .done result => x.finish errors i access result fault
  | .draw next => x.goOn i (next input)
  | .nested other inner next => (x.call true other inner).goOn i (next errors.nested)
  | .query next =>
      match fault with
      | some fault => (x.faulted errors access fault).goOn i (next (.error fault.error))
      | none => (x.look access).goOn i (next (.ok (x.view access)))
  | .write effect next =>
      match fault with
      | some fault => (x.faulted errors access fault).goOn i (next (.error fault.error))
      | none => x.write errors i effect next access

def step (x : SqliteUnitOfWork σ ω ε ι α) : UnitEvent σ ω ε ι α → SqliteUnitOfWork σ ω ε ι α
  | .call access body => x.call false access body
  | .start i fault =>
      match x.queue.jobs[i]? with
      | some ⟨access, body, _, .waiting, _⟩ =>
          if x.queue.mayMove i then x.start errors i access body fault else x
      | _ => x
  | .turn i input fault =>
      match x.queue.jobs[i]? with
      | some ⟨access, _, _, .running body, _⟩ => x.turn errors i access input fault body
      | _ => x

section steps

/-- A body's turn comes only when the one before it has settled. -/
theorem step_start (i : ℕ) (fault : Option (SqliteFault ε)) : x.step errors (.start i fault) = x ∨
    ∃ job, x.queue.At i job ∧ job.status = .waiting ∧ x.queue.mayMove i = true ∧
      x.step errors (.start i fault) = x.start errors i job.key job.task fault := by
  unfold step
  dsimp only
  cases hjob : x.queue.jobs[i]? with
  | none => exact Or.inl rfl
  | some job =>
    obtain ⟨key, task, prior, status, reacted⟩ := job
    cases status with
    | waiting =>
      dsimp only
      split_ifs with hmove
      · exact Or.inr ⟨_, hjob, rfl, hmove, rfl⟩
      · exact Or.inl rfl
    | running rest => exact Or.inl rfl
    | settled result => exact Or.inl rfl

theorem step_turn (i : ℕ) (input : ι) (fault : Option (SqliteFault ε)) :
    x.step errors (.turn i input fault) = x ∨
      ∃ job rest, x.queue.At i job ∧ job.status = .running rest ∧
        x.step errors (.turn i input fault) = x.turn errors i job.key input fault rest := by
  unfold step
  dsimp only
  cases hjob : x.queue.jobs[i]? with
  | none => exact Or.inl rfl
  | some job =>
    obtain ⟨key, task, prior, status, reacted⟩ := job
    cases status with
    | waiting => exact Or.inl rfl
    | running rest => exact Or.inr ⟨_, rest, hjob, rfl, rfl⟩
    | settled result => exact Or.inl rfl

theorem sameWrites_turn (i : ℕ) (input : ι) (fault : Option (SqliteFault ε)) (body : Body σ ω ε ι α) :
    (x.turn errors i .read input fault body).SameWrites x i := by
  have hfaulted : ∀ fault (next : Body σ ω ε ι α),
      ((x.faulted errors .read fault).goOn i next).SameWrites x i := fun fault next =>
    ⟨⟨_, by rw [goOn_queue, faulted_queue]⟩, faulted_committed, faulted_writing⟩
  cases body with
  | done result =>
    unfold turn finish
    cases result with
    | error e => exact ⟨⟨_, rfl⟩, rfl, rfl⟩
    | ok a =>
      cases fault with
      | some fault => exact ⟨⟨_, rfl⟩, rfl, rfl⟩
      | none =>
        dsimp only
        split_ifs
        · exact ⟨⟨_, rfl⟩, rfl, rfl⟩
        · exact ⟨⟨_, rfl⟩, rfl, rfl⟩
  | draw next => exact ⟨⟨_, rfl⟩, rfl, rfl⟩
  | nested other inner next => exact ⟨⟨_, rfl⟩, rfl, rfl⟩
  | query next =>
    cases fault with
    | some fault => exact hfaulted fault _
    | none => exact ⟨⟨_, rfl⟩, rfl, rfl⟩
  | write effect next =>
    cases fault with
    | some fault => exact hfaulted fault _
    | none => exact ⟨⟨_, rfl⟩, rfl, rfl⟩

theorem sameReads_turn (i : ℕ) (input : ι) (fault : Option (SqliteFault ε)) (body : Body σ ω ε ι α) :
    (x.turn errors i .run input fault body).SameReads x i := by
  have hfaulted : ∀ fault (next : Body σ ω ε ι α),
      ((x.faulted errors .run fault).goOn i next).SameReads x i := fun fault next =>
    ⟨⟨_, by rw [goOn_queue, faulted_queue]⟩, faulted_reading⟩
  cases body with
  | done result =>
    unfold turn finish
    cases result with
    | error e => exact ⟨⟨_, rfl⟩, rfl⟩
    | ok a =>
      cases fault with
      | some fault => exact ⟨⟨_, rfl⟩, rfl⟩
      | none =>
        dsimp only
        split_ifs
        · exact ⟨⟨_, rfl⟩, rfl⟩
        · exact ⟨⟨_, rfl⟩, rfl⟩
  | draw next => exact ⟨⟨_, rfl⟩, rfl⟩
  | nested other inner next => exact ⟨⟨_, rfl⟩, rfl⟩
  | query next =>
    cases fault with
    | some fault => exact hfaulted fault _
    | none => exact ⟨⟨_, rfl⟩, rfl⟩
  | write effect next =>
    cases fault with
    | some fault => exact hfaulted fault _
    | none =>
      unfold turn write
      dsimp only
      cases effect (x.view .run) with
      | error e => exact ⟨⟨_, rfl⟩, rfl⟩
      | ok ws =>
        unfold save
        dsimp only
        split_ifs
        · exact ⟨⟨_, rfl⟩, rfl⟩
        · exact ⟨⟨_, rfl⟩, rfl⟩

end steps

end SqliteUnitOfWork

namespace Body

variable {σ ω ε ι α : Type}

/-- A statement whose failure is the body's own. -/
def orThrow (next : σ → Body σ ω ε ι α) : Except ε σ → Body σ ω ε ι α
  | .ok s => next s
  | .error e => .done (.error e)

/-- A body that throws on every failed statement. -/
def ofProgram : Program σ ω ε ι α → Body σ ω ε ι α
  | .pure a => .done (.ok a)
  | .throw e => .done (.error e)
  | .stmt effect next => .write effect (orThrow fun s => ofProgram (next s))
  | .draw next => .draw fun input => ofProgram (next input)

end Body

end AiKanban.Db
