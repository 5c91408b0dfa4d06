import AiKanban.Services.CardLifecycle

/-!
# The card service

Each operation as its callers see it: the input is parsed, then the unit of work
runs, for the operations that place a card with one retry.
-/
namespace AiKanban.Services

open Domain Db Policy Transactions

namespace CardService

variable [Platform]

def create (deps : CardServiceDeps) (actor : Actor) (raw : CreateCardInput)
    (options : CreateCardOptions) : Attempts Card :=
  runWithPositionRetry
    (do
      let input ← .ofExcept raw.parse
      let origin ← .ofExcept (originOf actor.kind)
      createBody deps actor input options origin)
    (pure none)

def update (deps : CardServiceDeps) (actor : Actor) (cardId : ℕ) (raw : UpdateCardInput) :
    Attempts Card where
  first := do
    let input ← .ofExcept raw.parse
    updateBody deps actor cardId input

/-- The current card a position conflict carries. -/
def currentCard (actor : Actor) (cardId : ℕ) : Tx (Option Card) := do
  return some (← accessibleCard actor cardId)

def move (actor : Actor) (cardId : ℕ) (raw : MoveCardInput) : Attempts Card :=
  runWithPositionRetry
    (do
      let input ← .ofExcept raw.parse
      moveBody actor cardId input)
    (currentCard actor cardId)

def cancel (actor : Actor) (cardId : ℕ) (raw : CancelCardInput) : Attempts Card :=
  runWithPositionRetry
    (do
      let input ← .ofExcept raw.parse
      cancelBody actor cardId input)
    (currentCard actor cardId)

def reopen (actor : Actor) (cardId : ℕ) (raw : VersionInput) : Attempts Card :=
  runWithPositionRetry
    (do
      let input ← .ofExcept raw.parse
      reopenBody actor cardId input)
    (currentCard actor cardId)

def archive (actor : Actor) (cardId : ℕ) (raw : VersionInput) : Attempts Card where
  first := do
    let input ← .ofExcept raw.parse
    archiveBody actor cardId input

def block (actor : Actor) (cardId : ℕ) (raw : BlockCardInput) : Attempts Card where
  first := do
    let input ← .ofExcept raw.parse
    setBlockedFlagBody actor cardId input.expectedVersion (some input.reason)

def unblock (actor : Actor) (cardId : ℕ) (raw : VersionInput) : Attempts Card where
  first := do
    let input ← .ofExcept raw.parse
    setBlockedFlagBody actor cardId input.expectedVersion none

def delete (actor : Actor) (cardId expectedVersion : ℕ) : Attempts (List Uuid) where
  first := deleteBody actor cardId expectedVersion

def claimOverdueWaitingAlerts (deps : CardServiceDeps) : Attempts (List (Card × List User)) where
  first := do
    let now ← clockNow
    claimOverdueBody deps now

/-- One unit of work per candidate; the first error ends the sweep. -/
def archiveEach (actor : Actor) (cutoffIso : Instant) :
    List Card → ℕ → World Store Tick → Except DomainError ℕ × World Store Tick
  | [], archived, w => (.ok archived, w)
  | candidate :: candidates, archived, w =>
      match transact (archiveExpiredBody actor cutoffIso candidate) w with
      | (.error e, w') => (.error e, w')
      | (.ok result, w') =>
          archiveEach actor cutoffIso candidates
            (if result.isSome then archived + 1 else archived) w'

/-- What the sweep reads first: the time and the candidates. -/
def expiredCandidates : Tx (Instant × List Card) := do
  let now ← clockNow
  return (now, ← expiryCandidates)

/-- The nightly sweep: the candidates are listed in a read of their own. -/
def archiveExpired (actor : Actor) (w : World Store Tick) : Except DomainError ℕ × World Store Tick :=
  match transact expiredCandidates w with
  | (.error e, w') => (.error e, w')
  | (.ok (now, candidates), w') =>
      archiveEach actor (now - doneArchivalDays * dayMs) candidates 0 w'

end CardService
end AiKanban.Services
