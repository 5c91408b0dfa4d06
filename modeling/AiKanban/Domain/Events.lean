import AiKanban.Domain.Entities

/-!
# The audit trail

Each event body carries the payload of its type. A payload field the schema
lets be absent or null is an `Option`.
-/
namespace AiKanban.Domain

inductive CardEventType where
  | created | statusChanged | reordered | fieldChanged | blocked | unblocked | cancelled
  | reopened | archived | commentAdded | commentEdited | commentDeleted
  | attachmentAdded | attachmentRemoved
  deriving DecidableEq

/-- Full card state captured at creation, including initial tags. -/
structure CardSnapshot where
  card : Card
  tags : List String
  deriving DecidableEq

/-- A change of one audited field: its value before, then its value after. -/
inductive FieldChange where
  | title (before after : String)
  | description (before after : String)
  | priority (before after : Priority)
  | estimateMinutes (before after : Option ℕ)
  | assigneeId (before after : Option Uuid)
  | locationId (before after : Option Uuid)
  | tags (before after : List String)
  | waitingReason (before after : Option WaitingReason)
  | expectedResumeAt (before after : Option Day)
  deriving DecidableEq

/-- The payload of `card.status_changed`. -/
structure StatusChange where
  fromLane : LaneKey
  toLane : LaneKey
  wipLimitExceeded : Bool
  clearedWaiting : Bool
  deriving DecidableEq

/-- The payload of `card.cancelled`; the waiting state is there only when the card was waiting. -/
structure Cancellation where
  resolution : CancelResolution
  fromLane : LaneKey
  waitingReason : Option WaitingReason
  expectedResumeAt : Option Day
  deriving DecidableEq

/-- The event-type-specific part of a card event. -/
inductive CardEventBody where
  | created (snapshot : CardSnapshot)
  | statusChanged (payload : StatusChange)
  | reordered (lane : LaneKey) (prevCardId nextCardId : Option ℕ)
  | fieldChanged (change : FieldChange)
  | blocked (reason : Option String)
  | unblocked (reason : Option String)
  | cancelled (payload : Cancellation)
  | reopened (toLane : LaneKey)
  | archived
  | commentAdded (commentId : Uuid) (parentCommentId : Option Uuid) (mentionedUserIds : List Uuid)
  | commentEdited (commentId : Uuid) (parentCommentId : Option Uuid)
  | commentDeleted (commentId : Uuid) (parentCommentId : Option Uuid)
  | attachmentAdded (attachmentId : Uuid) (filename : String)
  | attachmentRemoved (attachmentId : Uuid) (filename : String)
  deriving DecidableEq

def CardEventBody.eventType : CardEventBody → CardEventType
  | .created _ => .created
  | .statusChanged _ => .statusChanged
  | .reordered _ _ _ => .reordered
  | .fieldChanged _ => .fieldChanged
  | .blocked _ => .blocked
  | .unblocked _ => .unblocked
  | .cancelled _ => .cancelled
  | .reopened _ => .reopened
  | .archived => .archived
  | .commentAdded _ _ _ => .commentAdded
  | .commentEdited _ _ => .commentEdited
  | .commentDeleted _ _ => .commentDeleted
  | .attachmentAdded _ _ => .attachmentAdded
  | .attachmentRemoved _ _ => .attachmentRemoved

def CardEventBody.cancellation? : CardEventBody → Option Cancellation
  | .cancelled payload => some payload
  | _ => none

structure CardEvent where
  id : Uuid
  cardId : ℕ
  actorId : Option Uuid
  actorKind : ActorKind
  actorLabel : Option String
  createdAt : Instant
  body : CardEventBody
  deriving DecidableEq

/-- Any card event that fanned out to watchers, or a direct mention. -/
inductive NotificationKind where
  | event (type : CardEventType)
  | mention
  deriving DecidableEq

structure Notification where
  id : Uuid
  userId : Uuid
  cardId : ℕ
  actorId : Option Uuid
  eventType : NotificationKind
  commentId : Option Uuid
  createdAt : Instant
  readAt : Option Instant
  deriving DecidableEq

end AiKanban.Domain
