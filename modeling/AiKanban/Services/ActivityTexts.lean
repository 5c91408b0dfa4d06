import AiKanban.Formats.IsoDateTime
import AiKanban.Services.BoardPages

/-!
# The activity feed over texts

The request says since when in a text, and the times of the events are compared with it as the
texts of their column.
-/
namespace AiKanban.Db.EventRepository

open Domain Formats Relational Transactions

/-- `matches`, with the lower bound as a text. -/
def BoardSinceFilter.matchesText (filter : BoardSinceFilter) (sinceIso : String) (v : Store)
    (e : CardEvent) : Bool :=
  decide (¬ toISOString e.createdAt < sinceIso) && filter.types.all (·.contains e.body.eventType) &&
    filter.cardId.all (· == e.cardId) && filter.actorKind.all (· == e.actorKind) &&
    filter.actorIds.all (fun ids => e.actorId.any ids.contains) &&
    v.cards.rows.any fun card => card.id == e.cardId && card.boardId == filter.boardId

variable [KeyTexts]

/-- `listBoardSince`, with the lower bound as a text. -/
def listBoardSinceText (sinceIso : String) (filter : BoardSinceFilter) (after : Option CursorKey)
    (limit : Option ℕ) : Tx (List CardEvent) :=
  .read fun v => limited limit (newestFirst (·.createdAt) (·.id) (v.cardEvents.rows.filter fun e =>
    filter.matchesText sinceIso v e && after.all fun key => olderThanUuid key e.createdAt e.id))

end AiKanban.Db.EventRepository

namespace AiKanban.Services

open Db Domain Formats Policy Transactions
open CardService (dayMs)

/-- The feed's request with the text of its lower bound. -/
structure ActivityFeedTexts extends PageRequest where
  sinceIso : Option String := none
  type : Option CardEventType := none
  cardId : Option ℕ := none
  actorKind : Option ActorKind := none

def ActivityFeedTexts.parse (raw : ActivityFeedTexts) : Except DomainError (Option String × ℕ) := do
  let page ← raw.toPageRequest.parse
  whenPresent raw.sinceIso fun text => check (readIso text.toList).isSome ["sinceIso"]
  whenPresent raw.cardId (integerAtLeast ["cardId"] 1)
  return page

/-- The request with a millisecond as its lower bound. -/
def ActivityFeedTexts.since (raw : ActivityFeedTexts) (sinceIso : Instant) : ActivityFeedRequest where
  toPageRequest := raw.toPageRequest
  sinceIso := some sinceIso
  type := raw.type
  cardId := raw.cardId
  actorKind := raw.actorKind

namespace BoardQueryService

def feedSinceText (raw : ActivityFeedTexts) : Tx String :=
  match raw.sinceIso with
  | some sinceIso => pure sinceIso
  | none => do return toISOString ((← clockNow) - dayMs)

variable [KeyTexts]

/-- `eventsSince`, with the lower bound as a text. -/
def eventsSinceText (boardId : Uuid) (actor : Actor) (raw : ActivityFeedTexts) : Tx ActivityFeed := do
  let (cursor, limit) ← .ofExcept raw.parse
  let sinceIso ← feedSinceText raw
  let after ← .ofExcept (cursor.mapM decodeCursor)
  let _ ← requireBoardAccess actor boardId
  let policy ← activePolicy boardId
  let actorIds ← feedActorIds actor policy
  let events ← EventRepository.listBoardSinceText sinceIso {
      boardId, types := raw.type.map fun type => [type], cardId := raw.cardId
      actorKind := raw.actorKind, actorIds } after (some (limit + 1))
  let page ← .ofExcept (paginate events limit eventKey)
  resolveActivityNames (← enrichMcpActors page.items) page.nextCursor

end BoardQueryService
end AiKanban.Services
