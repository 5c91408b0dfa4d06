import AiKanban.Application.Concurrency
import AiKanban.Application.Operations

/-!
# Policy changes on Postgres

There a policy change locks the rows of the boards whose policies it reads. Its statements are
interleaved with those of other policy changes, and with operations on cards.
-/
namespace AiKanban.Db

open Domain Relational Transactions

/-- `SELECT … FROM boards WHERE id FOR UPDATE`: the rows stay as they are. -/
def lockBoard (boardId : Uuid) : Tx Unit := modifyWhere (fun board : Board => board.id == boardId) id

/-- The board is locked before its policy is read. -/
def PolicyRepository.getActiveForUpdate (boardId : Uuid) : Tx (Option BoardPolicy) := do
  lockBoard boardId
  PolicyRepository.getActive boardId

end AiKanban.Db

namespace AiKanban.Application

open Domain Db Policy Services Transactions

variable [Platform]

/-- `PolicyService.apply` over a way to read the active policy for an update. -/
def applyWith (getActiveForUpdate : Uuid → Tx (Option BoardPolicy)) (boardId : Uuid) (actor : Actor)
    (document : PolicyDocument) : Tx BoardPolicy := do
  let parsed ← .ofExcept document.parse
  let authority ← requireFound (← BoardRepository.getDefault) "default board"
  let global ← requireFound (← getActiveForUpdate authority.id) "policy"
  let _ ← requireBoardAccess actor boardId
  let current ← requireFound (← getActiveForUpdate boardId) "policy"
  decidePolicy (evaluatePolicy actor .managePolicy global.config)
  let config := { parsed with
    waitingReasons :=
      PolicyService.retireReasons parsed.waitingReasons current.config.waitingReasons }
  PolicyService.ensureNoOrphanedRole (config.roles.map (·.key))
  ensureEach (global.config.roles.filter fun role => config.roles.all (·.key != role.key))
    fun role => BoardRepository.setDefault (.role role.key) none
  let version : BoardPolicy := {
    id := ← newId, boardId, config, createdBy := actor.id, createdAt := ← clockNow }
  PolicyRepository.insert version
  if authority.id ≠ boardId ∧ global.config.roles ≠ config.roles then
    PolicyRepository.insert { version with
      id := ← newId
      boardId := authority.id
      config := { global.config with roles := config.roles } }
  return version

/-- On SQLite a transaction has the database to itself, and nothing is locked. -/
theorem apply_eq : PolicyService.apply = applyWith PolicyRepository.getActive := rfl

/-- What a caller of a policy change sends. -/
structure PolicyChange where
  boardId : Uuid
  actor : Actor
  document : PolicyDocument

def PolicyChange.onPostgres (change : PolicyChange) : Tx BoardPolicy :=
  applyWith PolicyRepository.getActiveForUpdate change.boardId change.actor change.document

/-- The policy changes of the callers, none of them begun. -/
def policyChanges {κ : Type} (changes : κ → PolicyChange) (w : World Store Tick) :
    PgConfig κ BoardPolicy where
  committed := w.store
  sessions caller := .ready [(changes caller).onPostgres]
  inputs := w.inputs
  drawn := w.drawn

/-- Whose turn it is: a caller's next statement, or a whole operation on a card. -/
inductive PolicyTurn (κ : Type) where
  | statement (caller : κ)
  | card (op : CardOperation)

variable {κ : Type} [DecidableEq κ] [Fintype κ]

def policyTurn (c : PgConfig κ BoardPolicy) : PolicyTurn κ → PgConfig κ BoardPolicy
  | .statement caller => c.step caller
  | .card op =>
      let w := (op.perform ⟨c.committed, c.inputs, c.drawn⟩).2
      { c with committed := w.store, inputs := w.inputs, drawn := w.drawn }

end AiKanban.Application
