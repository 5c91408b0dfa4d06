import AiKanban.Domain.Commands
import AiKanban.Services.BoardAccess

/-!
# Creating and editing cards

`CardService.create` and `CardService.update`: the bodies of their units of work.
-/
namespace AiKanban.Services

open Domain Db Policy Transactions

/-- What the card service is built with. The dialect names the adapter behind its
unit of work. -/
structure CardServiceDeps where
  boardId : Uuid
  systemUserId : Uuid
  dialect : Dialect
  deriving DecidableEq

/-- Trusted, adapter-only creation context. -/
structure CreateCardOptions where
  reporterId : Option Uuid := none
  slackChannelId : Option String := none
  slackThreadTs : Option String := none
  slackPermalink : Option String := none
  deriving DecidableEq

namespace CardService

def originOf : ActorKind → Except DomainError CardOrigin
  | .user => .ok .manual
  | .mcp => .ok .mcp
  | .agent => .ok .mcp
  | .slack => .ok .slack
  | .system =>
      .error (.failure "system actors do not create cards in v1 (origin pm is reserved)")

def ensureActiveWaitingReason (policy : PolicyDocument) (reason : WaitingReason) (card : Card) :
    Tx Unit :=
  .ensure (policy.waitingReasons.any fun choice => choice.key == reason && choice.active)
    (.conflict "waiting reason is unavailable; select an active reason" (some card))

/-- Assignees are active users, not the automation user, who can access the board. -/
def requireAssignable (deps : CardServiceDeps) (assigneeId boardId : Uuid) : Tx Unit := do
  let assignee ← requireFound (← UserRepository.findById assigneeId) "assignee"
  let board ← requireFound (← BoardRepository.findById boardId) "board"
  Program.ensure (assignee.isActive && assignee.id != deps.systemUserId) (.notFound "assignee")
  let accessible ← canAccessBoard { kind := .user, id := assignee.id, role := assignee.role } board
  Program.ensure accessible (.notFound "assignee")

def requireLocation (locationId : Uuid) : Tx Unit := do
  let _ ← requireFound (← LocationRepository.findById locationId) "location"

/-- Run a body for a value that is there. -/
def forPresent {α : Type} (value : Option α) (body : α → Tx Unit) : Tx Unit :=
  match value with
  | some a => body a
  | none => pure ()

/-- How every mutation with one event ends: the row, then its event. -/
def writeWithEvent (actor : Actor) (card updated : Card) (body : CardEventBody) : Tx Card := do
  CardRepository.update card updated
  let event ← makeEvent actor card.id body
  EventRepository.append event
  return updated

section

variable [Platform]

/-- `generateKeyBetween`, its error passing through. -/
def generateKeyBetween (prev next : Option String) : Tx String :=
  .ofExcept ((Platform.generateKeyBetween prev next).mapError .failure)

/-- The card as created: version 1, in the entry lane, neither terminal nor waiting. -/
def newCard (deps : CardServiceDeps) (input : CreateCardInput) (options : CreateCardOptions)
    (origin : CardOrigin) (reporterId laneId : Uuid) (id : ℕ) (position : String)
    (nowIso : Instant) : Card where
  id := id
  boardId := deps.boardId
  laneId := laneId
  position := position
  title := input.title
  description := input.description
  priority := input.priority
  estimateMinutes := input.estimateMinutes
  reporterId := reporterId
  assigneeId := input.assigneeId
  locationId := input.locationId
  origin := origin
  resolution := none
  blocked := false
  blockedReason := none
  blockedAt := none
  waitingReason := none
  expectedResumeAt := none
  resumeAlertedAt := none
  workStartedAt := none
  slackChannelId := options.slackChannelId
  slackThreadTs := options.slackThreadTs
  slackPermalink := options.slackPermalink
  version := 1
  createdAt := nowIso
  updatedAt := nowIso
  archivedAt := none

/-- The unit of work of `create`: the card lands at the top of the entry lane. -/
def createBody (deps : CardServiceDeps) (actor : Actor) (input : CreateCardInput)
    (options : CreateCardOptions) (origin : CardOrigin) : Tx Card := do
  let _ ← requireBoardAccess actor deps.boardId
  let policy ← activePolicy deps.boardId
  decidePolicy (evaluatePolicy actor .cardCreate policy)
  let reporterId := options.reporterId.getD actor.id
  let _ ← requireFound (← UserRepository.findById reporterId) "reporter"
  forPresent input.assigneeId fun assigneeId => requireAssignable deps assigneeId deps.boardId
  forPresent input.locationId requireLocation
  let entry ← firstLane deps.boardId
  let top ← CardRepository.edgeOfLane entry.id .first
  let nowIso ← clockNow
  let id ← CardRepository.nextCardId deps.dialect
  let position ← generateKeyBetween none (top.map (·.position))
  let card := newCard deps input options origin reporterId entry.id id position nowIso
  CardRepository.insert card
  CardWatcherRepository.add card.id reporterId nowIso
  forPresent card.assigneeId fun assigneeId => CardWatcherRepository.add card.id assigneeId nowIso
  let tags ← resolveTags input.tags
  TagRepository.setCardTags card.id (tags.map (·.id))
  let event ← makeEvent actor card.id (.created ⟨card, tags.map (·.name)⟩)
  EventRepository.append event
  return card

/-- The edited row and the events so far. -/
structure Edit where
  next : Card
  events : List CardEvent

/-- Record one change of a field and set it. -/
def fieldChanged (actor : Actor) (card : Card) (change : FieldChange) (next : Card) (edit : Edit) :
    Tx Edit := do
  let event ← makeEvent actor card.id (.fieldChanged change)
  return ⟨next, edit.events ++ [event]⟩

/-- Edit one field when the input gives it another value than the card has. -/
def editField {α : Type} [DecidableEq α] (actor : Actor) (card : Card) (input : Option α)
    (current : α) (change : α → α → FieldChange) (set : α → Card → Card) (guard : α → Tx Unit)
    (edit : Edit) : Tx Edit :=
  match input with
  | none => pure edit
  | some value =>
      if value = current then pure edit
      else do
        guard value
        fieldChanged actor card (change current value) (set value edit.next) edit

/-- A newly-assigned user auto-watches the card. -/
def assign (deps : CardServiceDeps) (card : Card) (assigneeId : Option Uuid) : Tx Unit :=
  forPresent assigneeId fun assigneeId => do
    requireAssignable deps assigneeId card.boardId
    CardWatcherRepository.add card.id assigneeId (← clockNow)

/-- Full-replacement tag edit; naming the same set of tags changes nothing. -/
def editTags (actor : Actor) (card : Card) (input : Option (List String)) (edit : Edit) : Tx Edit :=
  match input with
  | none => pure edit
  | some names => do
      let fromNames := (← TagRepository.listByCard card.id).map (·.name)
      let resolved ← resolveTags names
      let toNames := resolved.map (·.name)
      if sameTagSet fromNames toNames then pure edit
      else do
        TagRepository.setCardTags card.id (resolved.map (·.id))
        fieldChanged actor card (.tags fromNames toNames) edit.next edit

/-- The waiting fields are editable in place only in the waiting lane. A new resume
date re-arms the overdue alert. -/
def editWaiting (actor : Actor) (card : Card) (policy : PolicyDocument) (input : UpdateCardInput)
    (edit : Edit) : Tx Edit :=
  if input.waitingReason.isNone && input.expectedResumeAt.isNone then pure edit
  else do
    let lane ← laneOfCard card
    Program.ensure (lane.key == "waiting_parts_vendor")
      (.conflict "waiting reason and resume date can only be edited in the waiting lane" (some card))
    let edit ← editField actor card (input.waitingReason.map some) card.waitingReason
      .waitingReason (fun reason next => { next with waitingReason := reason })
      (fun reason => forPresent reason fun key => ensureActiveWaitingReason policy key card) edit
    editField actor card (input.expectedResumeAt.map some) card.expectedResumeAt
      .expectedResumeAt
      (fun day next => { next with expectedResumeAt := day, resumeAlertedAt := none })
      (fun _ => pure ()) edit

/-- The row edits, in the order of their events. -/
def editFields (deps : CardServiceDeps) (actor : Actor) (card : Card) (policy : PolicyDocument)
    (input : UpdateCardInput) : Tx Edit := do
  let unguarded {α : Type} : α → Tx Unit := fun _ => pure ()
  let edit ← editField actor card input.title card.title .title
    (fun title next => { next with title }) unguarded ⟨card, []⟩
  let edit ← editField actor card input.description card.description .description
    (fun description next => { next with description }) unguarded edit
  let edit ← editField actor card input.priority card.priority .priority
    (fun priority next => { next with priority }) unguarded edit
  let edit ← editField actor card input.estimateMinutes card.estimateMinutes .estimateMinutes
    (fun estimateMinutes next => { next with estimateMinutes }) unguarded edit
  let edit ← editField actor card input.assigneeId card.assigneeId .assigneeId
    (fun assigneeId next => { next with assigneeId }) (assign deps card) edit
  let edit ← editField actor card input.locationId card.locationId .locationId
    (fun locationId next => { next with locationId })
    (fun locationId => forPresent locationId requireLocation) edit
  let edit ← editTags actor card input.tags edit
  editWaiting actor card policy input edit

/-- The unit of work of `update`; an edit without events leaves the row alone. -/
def updateBody (deps : CardServiceDeps) (actor : Actor) (cardId : ℕ) (input : UpdateCardInput) :
    Tx Card := do
  let card ← accessibleCard actor cardId
  ensureNotArchived card
  let policy ← activePolicy card.boardId
  decidePolicy (evaluatePolicy actor .cardUpdate policy)
  ensureVersion card input.expectedVersion
  let edit ← editFields deps actor card policy input
  if edit.events.isEmpty then pure card
  else do
    let next := { edit.next with version := card.version + 1, updatedAt := ← clockNow }
    CardRepository.update card next
    Program.forEach EventRepository.append edit.events
    return next

end
end CardService
end AiKanban.Services
