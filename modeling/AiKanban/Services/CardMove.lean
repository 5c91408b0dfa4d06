import AiKanban.Services.CardCreate

/-!
# Moving cards between lanes

`CardService.move`, `cancel` and `reopen`: the bodies of their units of work.
-/
namespace AiKanban.Services

open Domain Db Policy Transactions

namespace CardService

def staleNeighbors (card : Card) : DomainError := .conflict "stale move neighbors" (some card)

/-- A neighbor has to be another active card of the target lane. -/
def readNeighbor (card : Card) (toLane : Lane) : Option ℕ → Tx (Option Card)
  | none => pure none
  | some neighborId => do
      let neighbor ← Program.require (← CardRepository.findById neighborId) (staleNeighbors card)
      Program.ensure (neighbor.id != card.id && neighbor.laneId == toLane.id &&
        neighbor.archivedAt.isNone) (staleNeighbors card)
      return some neighbor

/-- The lane key of the waiting discipline. -/
def waitingKey : LaneKey := "waiting_parts_vendor"

def doneKey : LaneKey := "done"

section

variable [Platform]

/-- Neighbors whose keys no longer bracket a valid gap are stale. -/
def keyBetween (prev next : Option String) (card : Card) : Tx String :=
  match Platform.generateKeyBetween prev next with
  | .ok key => pure key
  | .error _ => .throw (staleNeighbors card)

/-- What entering or leaving a lane does to the row besides placing it. -/
def crossLane (card placed : Card) (fromLane toLane : Lane) (waitingFields : Option WaitingLaneEntry)
    (startedAt : Instant) : Card :=
  let entered := match waitingFields with
    | some fields => { placed with
        waitingReason := some fields.waitingReason
        expectedResumeAt := some fields.expectedResumeAt
        resumeAlertedAt := none }
    | none => placed
  let left := if fromLane.key = waitingKey then { entered with
      waitingReason := none
      expectedResumeAt := none
      resumeAlertedAt := none }
    else entered
  -- The first entry into In Progress anchors the burn-down bar.
  let started := if toLane.key = "in_progress" ∧ card.workStartedAt = none then
      { left with workStartedAt := some startedAt }
    else left
  let completed := if toLane.key = doneKey then { started with resolution := some .completed }
    else started
  if fromLane.key = doneKey then { completed with resolution := none } else completed

/-- `startedAt` is a reading of its own, taken only on a first entry into In Progress. -/
def workStart (card : Card) (toLane : Lane) : Tx Instant :=
  if toLane.key = "in_progress" ∧ card.workStartedAt = none then clockNow else pure 0

/-- Whether the card makes the lane exceed its WIP limit. -/
def exceedsWipLimit (toLane : Lane) : Tx Bool :=
  match toLane.wipLimit with
  | none => pure false
  | some limit => do
      let active ← CardRepository.countActiveByLane toLane.id
      return decide (limit < active + 1)

/-- The moved row and the event body of a move within a lane or across lanes. -/
def moved (card placed : Card) (fromLane toLane : Lane) (input : MoveCardInput)
    (waitingFields : Option WaitingLaneEntry) : Tx (Card × CardEventBody) :=
  if toLane.id = fromLane.id then
    pure (placed, .reordered toLane.key input.prevCardId input.nextCardId)
  else do
    let startedAt ← workStart card toLane
    let wipLimitExceeded ← exceedsWipLimit toLane
    return (crossLane card placed fromLane toLane waitingFields startedAt,
      .statusChanged {
        fromLane := fromLane.key
        toLane := toLane.key
        wipLimitExceeded
        clearedWaiting := decide (fromLane.key = waitingKey) })

/-- The fields an entry into the waiting lane has to carry; no other move asks for them. -/
def waitingEntry (card : Card) (policy : PolicyDocument) (fromLane toLane : Lane)
    (input : MoveCardInput) : Tx (Option WaitingLaneEntry) :=
  if toLane.id ≠ fromLane.id ∧ toLane.key = waitingKey then do
    let fields ← .ofExcept (WaitingLaneEntry.parse input.waitingReason input.expectedResumeAt)
    ensureActiveWaitingReason policy fields.waitingReason card
    return some fields
  else pure none

/-- The position key between the actual neighbors of the gap the input names. -/
def targetPosition (card : Card) (toLane : Lane) (input : MoveCardInput) : Tx String := do
  let prev ← readNeighbor card toLane input.prevCardId
  let next ← readNeighbor card toLane input.nextCardId
  let _ ← keyBetween (prev.map (·.position)) (next.map (·.position)) card
  -- Filtered, archived or concurrently inserted cards may occupy the gap.
  let actualPrev ← CardRepository.positionBefore toLane.id (next.map (·.position)) card.id
  keyBetween actualPrev (next.map (·.position)) card

/-- Dragging out of done clears the resolution, so the reopen gate applies too. -/
def ensureReopenAllowed (actor : Actor) (policy : PolicyDocument) (fromLane toLane : Lane) : Tx Unit :=
  if toLane.id ≠ fromLane.id ∧ fromLane.key = doneKey then
    decidePolicy (evaluatePolicy actor .cardReopen policy)
  else pure ()

/-- The row at its new place. -/
def placedCard (card : Card) (toLane : Lane) (position : String) (updatedAt : Instant) : Card :=
  { card with laneId := toLane.id, position, version := card.version + 1, updatedAt }

/-- The unit of work of `move`. -/
def moveBody (actor : Actor) (cardId : ℕ) (input : MoveCardInput) : Tx Card := do
  let card ← accessibleCard actor cardId
  ensureNotArchived card
  let fromLane ← laneOfCard card
  let toLane ← laneByKey card.boardId input.toLane
  let policy ← activePolicy card.boardId
  let action := if toLane.id = fromLane.id then .cardReorder toLane.key
    else .cardMove fromLane.key toLane.key
  decidePolicy (evaluatePolicy actor action policy)
  ensureReopenAllowed actor policy fromLane toLane
  ensureVersion card input.expectedVersion
  let waitingFields ← waitingEntry card policy fromLane toLane input
  let position ← targetPosition card toLane input
  let placed := placedCard card toLane position (← clockNow)
  let (updated, body) ← moved card placed fromLane toLane input waitingFields
  writeWithEvent actor card updated body

/-- The row of a cancelled card at the bottom of `done`. -/
def cancelledCard (card : Card) (done : Lane) (position : String) (resolution : CancelResolution)
    (updatedAt : Instant) : Card := { card with
  laneId := done.id
  position
  resolution := some resolution.toResolution
  waitingReason := none
  expectedResumeAt := none
  resumeAlertedAt := none
  version := card.version + 1
  updatedAt }

/-- The cancellation event captures the waiting state, when there is one, before it is cleared. -/
def cancellationOf (card : Card) (fromLane : Lane) (resolution : CancelResolution) :
    Cancellation where
  resolution := resolution
  fromLane := fromLane.key
  waitingReason := card.waitingReason
  expectedResumeAt := if card.waitingReason.isSome then card.expectedResumeAt else none

/-- The unit of work of `cancel`. -/
def cancelBody (actor : Actor) (cardId : ℕ) (input : CancelCardInput) : Tx Card := do
  let card ← accessibleCard actor cardId
  ensureNotArchived card
  let fromLane ← laneOfCard card
  Program.ensure (fromLane.key != doneKey) (.conflict "card is already terminal" (some card))
  let policy ← activePolicy card.boardId
  decidePolicy (evaluatePolicy actor .cardCancel policy)
  ensureVersion card input.expectedVersion
  let done ← Program.require (← LaneRepository.findByKey card.boardId doneKey)
    (.conflict "this board has no done column to cancel into" (some card))
  let bottom ← CardRepository.edgeOfLane done.id .last
  let position ← generateKeyBetween (bottom.map (·.position)) none
  let updated := cancelledCard card done position input.resolution (← clockNow)
  writeWithEvent actor card updated (.cancelled (cancellationOf card fromLane input.resolution))

/-- The card's last cancellation, asked for only while its resolution is a cancel one. -/
def lastCancellation (card : Card) : Tx (Option Cancellation) :=
  if card.resolution = none ∨ card.resolution = some .completed then pure none
  else do
    let event ← EventRepository.latestByCard card.id [.cancelled]
    return event.bind (·.body.cancellation?)

/-- The lane to restore; a vendor card is not rebuilt without its recorded reason. -/
def priorLaneKey (payload : Option Cancellation) : Option LaneKey :=
  payload.bind fun p =>
    if p.fromLane = waitingKey ∧ p.waitingReason = none then none else some p.fromLane

def restoredLane (card : Card) (payload : Option Cancellation) : Tx (Option Lane) :=
  match priorLaneKey payload with
  | some key => LaneRepository.findByKey card.boardId key
  | none => pure none

/-- The restored lane, else `ready`, else the entry column. -/
def reopenTarget (card : Card) (restored : Option Lane) : Tx Lane :=
  match restored with
  | some lane => pure lane
  | none => do
      match ← LaneRepository.findByKey card.boardId "ready" with
      | some lane => pure lane
      | none => firstLane card.boardId

/-- The reopened row: only a restored vendor lane gets its waiting fields back, and only
a restored card keeps its burn-down. -/
def reopenedCard (card : Card) (payload : Option Cancellation) (restored : Option Lane)
    (target : Lane) (position : String) (updatedAt : Instant) : Card :=
  let restoreWaiting := restored.isSome && target.key == waitingKey
  { card with
    laneId := target.id
    position
    resolution := none
    archivedAt := none
    workStartedAt := if restored.isSome then card.workStartedAt else none
    waitingReason :=
      if restoreWaiting then payload.bind (·.waitingReason) else card.waitingReason
    expectedResumeAt :=
      if restoreWaiting then payload.bind (·.expectedResumeAt) else card.expectedResumeAt
    resumeAlertedAt := if restoreWaiting then none else card.resumeAlertedAt
    version := card.version + 1
    updatedAt }

/-- The unit of work of `reopen`. -/
def reopenBody (actor : Actor) (cardId : ℕ) (input : VersionInput) : Tx Card := do
  let card ← accessibleCard actor cardId
  let fromLane ← laneOfCard card
  Program.ensure (fromLane.key == doneKey) (.illegalTransition fromLane.key "ready")
  let policy ← activePolicy card.boardId
  decidePolicy (evaluatePolicy actor .cardReopen policy)
  ensureVersion card input.expectedVersion
  let payload ← lastCancellation card
  let restored ← restoredLane card payload
  let target ← reopenTarget card restored
  let bottom ← CardRepository.edgeOfLane target.id .last
  let position ← generateKeyBetween (bottom.map (·.position)) none
  let updated := reopenedCard card payload restored target position (← clockNow)
  writeWithEvent actor card updated (.reopened target.key)

end
end CardService
end AiKanban.Services
