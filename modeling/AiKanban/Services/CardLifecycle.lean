import AiKanban.Services.CardMove

/-!
# Archiving, discarding, flagging and claiming cards

The other card mutations, and `CardService` as its callers see it: each operation
parses its input and runs its unit of work.
-/
namespace AiKanban.Services

open Domain Db Policy Transactions

namespace CardService

/-- An archived row. -/
def archivedCard (card : Card) (nowIso : Instant) : Card :=
  { card with archivedAt := some nowIso, version := card.version + 1, updatedAt := nowIso }

def archiveCard (actor : Actor) (card : Card) : Tx Card := do
  writeWithEvent actor card (archivedCard card (← clockNow)) .archived

/-- The unit of work of `archive`. -/
def archiveBody (actor : Actor) (cardId : ℕ) (input : VersionInput) : Tx Card := do
  let card ← accessibleCard actor cardId
  ensureNotArchived card
  let lane ← laneOfCard card
  Program.ensure (lane.key == doneKey)
    (.conflict "only cards in the done lane can be archived" (some card))
  let policy ← activePolicy card.boardId
  decidePolicy (evaluatePolicy actor .cardArchive policy)
  ensureVersion card input.expectedVersion
  archiveCard actor card

/-- What `delete` checks: only the reporter may discard, and only from the entry lane. -/
def deleteChecks (actor : Actor) (cardId expectedVersion : ℕ) : Tx Card := do
  let card ← accessibleCard actor cardId
  let policy ← activePolicy card.boardId
  decidePolicy (evaluatePolicy actor (.cardDelete card.reporterId) policy)
  ensureVersion card expectedVersion
  let lane ← laneOfCard card
  let entry ← firstLane card.boardId
  Program.ensure (lane.id == entry.id)
    (.conflict "only a card still in the first column can be discarded" (some card))
  return card

/-- The unit of work of `delete`. The storage keys name the blobs dropped after the commit. -/
def deleteBody (actor : Actor) (cardId expectedVersion : ℕ) : Tx (List Uuid) := do
  let _ ← deleteChecks actor cardId expectedVersion
  CardRepository.hardDelete cardId

def doneArchivalDays : ℤ := 90
def dayMs : ℤ := 86400000

/-- When the card last entered Done, from its audit trail. -/
def enteredDoneAt (card : Card) : Tx Instant := do
  let newest ← EventRepository.latestByCard card.id [.statusChanged, .cancelled]
  return match newest with
    | some event =>
        match event.body with
        | .cancelled _ => event.createdAt
        | .statusChanged payload =>
            if payload.toLane = doneKey then event.createdAt else card.updatedAt
        | _ => card.updatedAt
    | none => card.updatedAt

/-- The done cards of every active board. -/
def expiryCandidates : Tx (List Card) := do
  let boards ← BoardRepository.list
  Program.foldM (fun cards board => do
    match ← LaneRepository.findByKey board.id doneKey with
    | some done =>
        return cards ++
          (← CardRepository.query { boardId := some board.id, laneId := some done.id })
    | none => return cards) [] boards

/-- The unit of work for one candidate; it may have moved or changed since it was listed. -/
def archiveExpiredBody (actor : Actor) (cutoffIso : Instant) (candidate : Card) :
    Tx (Option Card) := do
  match ← CardRepository.findById candidate.id with
  | none => return none
  | some card =>
      if card.archivedAt.isSome ∨ card.laneId ≠ candidate.laneId then return none
      else
        let board ← BoardRepository.findById card.boardId
        if !board.any (·.archivedAt.isNone) then return none
        else do
          let _ ← requireBoardAccess actor card.boardId
          let enteredAt ← enteredDoneAt card
          if enteredAt > cutoffIso then return none
          else return some (← archiveCard actor card)

/-- Users to tell about an overdue card: its active assignee, then the supervisors. -/
def alertRecipients (card : Card) (supervisors : List User) : Tx (List User) := do
  let assignee ← match card.assigneeId with
    | some id => UserRepository.findById id
    | none => pure none
  let first := assignee.toList.filter (·.isActive)
  return first ++ supervisors.filter fun s => first.all (·.id != s.id)

/-- The recipients who can access the board. -/
def visibleRecipients (board : Board) : List User → Tx (List User)
  | [] => pure []
  | user :: users => do
      let accessible ← canAccessBoard { kind := .user, id := user.id, role := user.role } board
      let rest ← visibleRecipients board users
      return if accessible then user :: rest else rest

/-- Claim one overdue episode: no version bump, no event. -/
def claimAlert (board : Board) (supervisors : List User) (nowIso : Instant) (card : Card) :
    Tx (Card × List User) := do
  let recipients ← alertRecipients card supervisors
  let marked := { card with resumeAlertedAt := some nowIso }
  CardRepository.update card marked
  return (marked, ← visibleRecipients board recipients)

def claimAlerts (board : Board) (supervisors : List User) (nowIso : Instant) :
    List Card → Tx (List (Card × List User))
  | [] => pure []
  | card :: cards => do
      let alert ← claimAlert board supervisors nowIso card
      return alert :: (← claimAlerts board supervisors nowIso cards)

/-- The roles that grant `manageUsers`. -/
def supervisorRoles (policy : PolicyDocument) : List Role :=
  (policy.roles.filter fun role => role.permissions.contains .manageUsers).map (·.key)

def utcDayOf (instant : Instant) : Day := instant / dayMs

/-- The overdue, un-alerted cards of one board. -/
def claimBoard (deps : CardServiceDeps) (nowIso : Instant) (board : Board) :
    Tx (List (Card × List User)) := do
  match ← LaneRepository.findByKey board.id waitingKey with
  | none => return []
  | some lane =>
      let rows ← CardRepository.query
        { laneId := some lane.id, overdueBefore := some (utcDayOf nowIso) }
      let overdue := rows.filter fun card => card.resumeAlertedAt.isNone
      if overdue.isEmpty then return []
      else do
        let policy ← activePolicy board.id
        let users ← UserAccountRepository.list
        let supervisors := users.filter fun user =>
          (supervisorRoles policy).contains user.role && user.isActive &&
            user.id != deps.systemUserId
        claimAlerts board supervisors nowIso overdue

/-- The unit of work of `claimOverdueWaitingAlerts`. -/
def claimOverdueBody (deps : CardServiceDeps) (nowIso : Instant) :
    Tx (List (Card × List User)) := do
  let boards ← BoardRepository.list
  Program.foldM (fun alerts board => do
    return alerts ++ (← claimBoard deps nowIso board)) [] boards

/-- The flagged or unflagged row. -/
def flaggedCard (card : Card) (reason : Option String) (nowIso : Instant) : Card :=
  { card with
    blocked := reason.isSome
    blockedReason := reason
    blockedAt := if reason.isSome then some nowIso else none
    version := card.version + 1
    updatedAt := nowIso }

/-- The unit of work of `block` (with a reason) and `unblock` (without one). -/
def setBlockedFlagBody (actor : Actor) (cardId expectedVersion : ℕ) (reason : Option String) :
    Tx Card := do
  let card ← accessibleCard actor cardId
  ensureNotArchived card
  let policy ← activePolicy card.boardId
  decidePolicy (evaluatePolicy actor (if reason.isSome then .cardBlock else .cardUnblock) policy)
  ensureVersion card expectedVersion
  Program.ensure (card.blocked != reason.isSome)
    (.conflict (if reason.isSome then "card is already blocked" else "card is not blocked")
      (some card))
  writeWithEvent actor card (flaggedCard card reason (← clockNow))
    (if reason.isSome then .blocked reason else .unblocked none)

end CardService
end AiKanban.Services
