import AiKanban.Domain.Envelopes
import AiKanban.Services.CardCollaboration
import AiKanban.Trees.StackWalk

/-!
# Board queries

The board, a card with what hangs on it, and the tree of locations that filters follow.
-/
namespace AiKanban.Services

open Domain Db Policy Relational Transactions Trees

structure CardDetail where
  card : Card
  tags : List Tag
  location : Option Location
  attachments : List Attachment
  deriving DecidableEq

/-- A detail with its thread and the trailing events. -/
structure CardDetailWithThread extends CardDetail where
  comments : List Comment
  latestEvents : List CardEvent
  deriving DecidableEq

namespace BoardQueryService

def locationOf : Option Uuid → Tx (Option Location)
  | none => pure none
  | some id => LocationRepository.findById id

def detailOf (card : Card) : Tx CardDetail := do
  let tags ← TagRepository.listByCard card.id
  let location ← locationOf card.locationId
  let attachments ← AttachmentRepository.listByCard card.id
  return ⟨card, tags, location, attachments.filter (·.deletedAt.isNone)⟩

/-- The newest events of a card, newest first. -/
def listLatestByCard (cardId limit : ℕ) : Tx (List CardEvent) :=
  .read fun v => (newestFirst (·.createdAt) (·.id)
    (v.cardEvents.rows.filter fun e => e.cardId == cardId)).take limit

def cardDetail (actor : Actor) (cardId : ℕ) : Tx CardDetail := do
  detailOf (← accessibleCard actor cardId)

/-- One card lookup and one snapshot for all three parts. -/
def cardDetailWithThread (actor : Actor) (cardId latestEventsTake : ℕ) :
    Tx CardDetailWithThread := do
  let card ← accessibleCard actor cardId
  let detail ← detailOf card
  let comments ← CommentRepository.listByCard card.id
  let latestEvents ← listLatestByCard card.id latestEventsTake
  return { detail with
    comments := CommentService.redactDeletedComments comments
    latestEvents := latestEvents.reverse }

section snapshots

/-- What the joins of the board read add to a row: tag names in order, active attachments, and
the name of the location. -/
def extrasOf (v : Store) (card : Card) : BoardCardExtras where
  tags := (TagRepository.cardTagRows v card.id).map (·.name)
  attachmentCount := v.attachments.rows.countP fun a => a.cardId == card.id && a.deletedAt.isNone
  locationLabel := (card.locationId.bind v.locations.find?).map (·.name)

/-- The active cards of a lane in position order. -/
def activeRows (v : Store) (laneId : Uuid) : List Card :=
  (CardRepository.laneRows v laneId).filter (·.archivedAt.isNone)

def laneSnapshot (v : Store) (lane : Lane) : LaneSnapshot where
  lane := lane
  cards := (activeRows v lane.id).map fun card => boardCardOf card (extrasOf v card)
  wipLimitExceeded := lane.wipLimit.any fun limit => decide (limit < (activeRows v lane.id).length)

/-- The unfiltered board of a store: its lanes in board order. -/
def snapshotOf (v : Store) (boardId : Uuid) : BoardSnapshot where
  lanes := (LaneRepository.boardLanes v boardId).map (laneSnapshot v)

def boardSnapshot (boardId : Uuid) (actor : Actor) : Tx BoardSnapshot := do
  let _ ← requireBoardAccess actor boardId
  .read fun v => snapshotOf v boardId

end snapshots

section trees

/-- The ids of the locations right below an id, in the order of the list. -/
def childrenByParentOf (all : List Location) (id : Uuid) : List Uuid :=
  (all.filter fun location => location.parentId == some id).map (·.id)

/-- The root and every location below it. The loop keeps no visited set: `none` when it
takes more rounds than there is fuel. -/
def subtreeIds (fuel : ℕ) (rootId : Uuid) (childrenByParent : Uuid → List Uuid) :
    Option (List Uuid) :=
  walk childrenByParent fuel [] [rootId]

end trees

end BoardQueryService
end AiKanban.Services
