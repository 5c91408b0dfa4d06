import AiKanban.Collections.InsertionMap
import AiKanban.Domain.Entities
import AiKanban.Domain.Schema
import AiKanban.Transitions.KeyedQueue

/-!
# Login backoff

Wrong passwords make an account wait. The attempts on one account, by either of the two
surfaces that check a password, run one after the other.
-/
namespace AiKanban.Server

open Collections Domain Transitions

def backoffBaseMs : ℤ := 1000
def backoffCapMs : ℤ := 60000

/-- The delay that so many failures in a row ask for. -/
def backoffDelayMs (failures : ℕ) : ℤ :=
  if failures = 0 then 0 else min (backoffBaseMs * 2 ^ (failures - 1)) backoffCapMs

structure BackoffEntry where
  failures : ℕ
  lastFailureAtMs : Instant
deriving DecidableEq

/-- At most so many entries, the stalest first. -/
structure LoginBackoff where
  maxEntries : ℕ
  entries : InsertionMap String BackoffEntry
deriving DecidableEq

namespace LoginBackoff

/-- The account that gives way to another. -/
def evicted (b : LoginBackoff) (key : String) : Option String :=
  let rest := (b.entries.delete key).entries
  if b.maxEntries ≤ rest.length then rest.head?.map (·.1) else none

def recordFailureAt (b : LoginBackoff) (key : String) (now : Instant) : LoginBackoff :=
  let entry := b.entries.get key
  -- Refreshing the place of the account leaves the stalest one first.
  let rest := b.entries.delete key
  let rest := match b.evicted key with
    | some oldest => rest.delete oldest
    | none => rest
  { b with entries := rest.set key ⟨(entry.map (·.failures)).getD 0 + 1, now⟩ }

variable [Platform] (b : LoginBackoff) (account : String) (now : Instant)

/-- The time an account must still wait; 0 when an attempt is allowed. -/
def retryAfterMs : ℤ :=
  match b.entries.get (Platform.toLowerCase account) with
  | none => 0
  | some entry => max 0 (entry.lastFailureAtMs + backoffDelayMs entry.failures - now)

def recordFailure : LoginBackoff := b.recordFailureAt (Platform.toLowerCase account) now

def reset : LoginBackoff :=
  { b with entries := b.entries.delete (Platform.toLowerCase account) }

end LoginBackoff

/-- The two surfaces that check a password. -/
inductive Surface where
  | login
  | changePassword
deriving DecidableEq

structure Attempt where
  surface : Surface
  email : String
deriving DecidableEq

/-- What an attempt awaits: the account, the check of the password (which may be a check of a
dummy, or of an account that may not sign in), or the new session. -/
inductive AttemptPhase where
  | lookingUp
  | verifying (counts : Bool)
  | storing
deriving DecidableEq

inductive AttemptResult where
  | backoffActive (retryAfterSeconds : ℤ)
  | invalidCredentials
  | currentPasswordMismatch
  | verified
  /-- Something that the attempt awaits fails. -/
  | rejected
deriving DecidableEq

/-- An outcome of a check, as the account's history. -/
structure Outcome where
  key : String
  succeeded : Bool
  recordedAt : Instant
deriving DecidableEq

abbrev AttemptQueue := KeyedQueue String Attempt AttemptPhase AttemptResult

/-- The clock, the backoff, the attempts, and the outcomes recorded so far, the latest first. -/
structure LoginState where
  now : Instant
  backoff : LoginBackoff
  queue : AttemptQueue
  outcomes : List Outcome

inductive LoginEvent where
  | attempt (surface : Surface) (email : String)
  | elapse (ms : ℕ)
  | start (i : ℕ)
  /-- The account of the e-mail: none, or one that is active or not. -/
  | lookedUp (i : ℕ) (found : Option Bool)
  | verified (i : ℕ) (isRight : Bool)
  /-- The session is stored unless the account changed meanwhile. -/
  | stored (i : ℕ) (unchanged : Bool)
  | rejected (i : ℕ)
  | react (i : ℕ)

namespace LoginState

variable [Platform]

def settle (x : LoginState) (i : ℕ) (result : AttemptResult) : LoginState :=
  { x with queue := x.queue.setStatus i (.settled result) }

def goOn (x : LoginState) (i : ℕ) (phase : AttemptPhase) : LoginState :=
  { x with queue := x.queue.setStatus i (.running phase) }

def recordFailure (x : LoginState) (email : String) : LoginState :=
  { x with
    backoff := x.backoff.recordFailure email x.now
    outcomes := ⟨Platform.toLowerCase email, false, x.now⟩ :: x.outcomes }

def recordSuccess (x : LoginState) (email : String) : LoginState :=
  { x with
    backoff := x.backoff.reset email
    outcomes := ⟨Platform.toLowerCase email, true, x.now⟩ :: x.outcomes }

/-- The attempt begins with the gate. -/
def start (x : LoginState) (i : ℕ) (attempt : Attempt) : LoginState :=
  let waitMs := x.backoff.retryAfterMs attempt.email x.now
  if 0 < waitMs then x.settle i (.backoffActive ((waitMs + 999) / 1000))
  else
    match attempt.surface with
    | .login => x.goOn i .lookingUp
    | .changePassword => x.goOn i (.verifying true)

/-- The check has come back. -/
def verified (x : LoginState) (i : ℕ) (attempt : Attempt) (succeeded : Bool) : LoginState :=
  match attempt.surface, succeeded with
  | .login, true => (x.recordSuccess attempt.email).goOn i .storing
  | .changePassword, true => (x.recordSuccess attempt.email).settle i .verified
  | .login, false => (x.recordFailure attempt.email).settle i .invalidCredentials
  | .changePassword, false => (x.recordFailure attempt.email).settle i .currentPasswordMismatch

/-- What an attempt does with an answer that it awaits; other answers do not come. -/
def step (x : LoginState) : LoginEvent → LoginState
  | .attempt surface email =>
      { x with queue := x.queue.enqueue (Platform.toLowerCase email) ⟨surface, email⟩ }
  | .elapse ms => { x with now := x.now + ms }
  | .react i => { x with queue := x.queue.react i }
  | .start i =>
      match x.queue.jobs[i]? with
      | some ⟨_, attempt, _, .waiting, _⟩ => if x.queue.mayMove i then x.start i attempt else x
      | _ => x
  | .lookedUp i found =>
      match x.queue.jobs[i]? with
      | some ⟨_, _, _, .running .lookingUp, _⟩ => x.goOn i (.verifying (found == some true))
      | _ => x
  | .verified i isRight =>
      match x.queue.jobs[i]? with
      | some ⟨_, attempt, _, .running (.verifying counts), _⟩ =>
          x.verified i attempt (isRight && counts)
      | _ => x
  | .stored i unchanged =>
      match x.queue.jobs[i]? with
      | some ⟨_, _, _, .running .storing, _⟩ =>
          x.settle i (if unchanged then .verified else .invalidCredentials)
      | _ => x
  | .rejected i =>
      match x.queue.jobs[i]? with
      | some ⟨_, _, _, .running _, _⟩ => x.settle i .rejected
      | _ => x

end LoginState

end AiKanban.Server
