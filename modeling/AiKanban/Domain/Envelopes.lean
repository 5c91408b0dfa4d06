import AiKanban.Domain.Entities

/-!
# The board snapshot

What the board shows of a card is its row without the description and the bookkeeping fields,
with what the joins of the read add.
-/
namespace AiKanban.Domain

/-- The tag names, the number of attachments and the name of the location. -/
structure BoardCardExtras where
  tags : List String := []
  attachmentCount : ℕ := 0
  locationLabel : Option String := none
deriving DecidableEq

structure BoardCard where
  id : ℕ
  boardId : Uuid
  laneId : Uuid
  position : String
  title : String
  priority : Priority
  estimateMinutes : Option ℕ
  reporterId : Uuid
  assigneeId : Option Uuid
  locationId : Option Uuid
  origin : CardOrigin
  resolution : Option Resolution
  blocked : Bool
  blockedReason : Option String
  blockedAt : Option Instant
  waitingReason : Option WaitingReason
  expectedResumeAt : Option Day
  workStartedAt : Option Instant
  version : ℕ
  createdAt : Instant
  updatedAt : Instant
  archivedAt : Option Instant
  tags : List String
  attachmentCount : ℕ
  locationLabel : Option String
deriving DecidableEq

def boardCardOf (card : Card) (extras : BoardCardExtras) : BoardCard where
  id := card.id
  boardId := card.boardId
  laneId := card.laneId
  position := card.position
  title := card.title
  priority := card.priority
  estimateMinutes := card.estimateMinutes
  reporterId := card.reporterId
  assigneeId := card.assigneeId
  locationId := card.locationId
  origin := card.origin
  resolution := card.resolution
  blocked := card.blocked
  blockedReason := card.blockedReason
  blockedAt := card.blockedAt
  waitingReason := card.waitingReason
  expectedResumeAt := card.expectedResumeAt
  workStartedAt := card.workStartedAt
  version := card.version
  createdAt := card.createdAt
  updatedAt := card.updatedAt
  archivedAt := card.archivedAt
  tags := extras.tags
  attachmentCount := extras.attachmentCount
  locationLabel := extras.locationLabel

structure LaneSnapshot where
  lane : Lane
  cards : List BoardCard
  wipLimitExceeded : Bool
deriving DecidableEq

structure BoardSnapshot where
  lanes : List LaneSnapshot
deriving DecidableEq

end AiKanban.Domain
