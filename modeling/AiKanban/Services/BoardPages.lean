import AiKanban.Db.Listings
import AiKanban.Services.BoardQuery
import AiKanban.Services.CardLifecycle

/-!
# Paged reads

The card list, a card's history and the activity feed. Each reads one row more than a page
holds and hands out the token of the last one.
-/
namespace AiKanban.Services

open Domain Db Policy Relational Transactions Pagination
open CardService (utcDayOf dayMs)

/-- The request's part about pages: a token and a limit of 1 to 200, 50 by default. -/
structure PageRequest where
  cursor : Option String := none
  limit : Option ℕ := none
  deriving DecidableEq

def PageRequest.parse (raw : PageRequest) : Except DomainError (Option String × ℕ) := do
  whenPresent raw.cursor fun cursor => check (utf16Length cursor ≤ 500) ["cursor"]
  let limit := raw.limit.getD 50
  check (1 ≤ limit && limit ≤ 200) ["limit"]
  return (raw.cursor, limit)

structure ListCardsFilter where
  lane : Option LaneKey := none
  assignee : Option Uuid := none
  reporter : Option Uuid := none
  priority : Option Priority := none
  locationId : Option Uuid := none
  tag : Option String := none
  tags : Option (List String) := none
  blocked : Option Bool := none
  waitingReason : Option WaitingReason := none
  overdueResume : Option Bool := none
  q : Option String := none
  includeArchived : Option Bool := none
  archivedOnly : Option Bool := none

def ListCardsFilter.parse (raw : ListCardsFilter) : Except DomainError ListCardsFilter := do
  whenPresent raw.lane (slugKey ["lane"])
  let tag := raw.tag.map trim
  whenPresent tag (boundedText ["tag"] 1 50)
  whenPresent raw.tags fun tags => check (tags.length ≤ 20) ["tags"]
  let tags ← raw.tags.mapM parseTags
  whenPresent raw.waitingReason (slugKey ["waitingReason"])
  whenPresent raw.q (boundedText ["q"] 0 200)
  return { raw with tag, tags }

structure CardHistoryRequest extends PageRequest where
  type : Option CardEventType := none

structure ActivityFeedRequest extends PageRequest where
  sinceIso : Option Instant := none
  type : Option CardEventType := none
  cardId : Option ℕ := none
  actorKind : Option ActorKind := none

def ActivityFeedRequest.parse (raw : ActivityFeedRequest) :
    Except DomainError (Option String × ℕ) := do
  let page ← raw.toPageRequest.parse
  whenPresent raw.cardId (integerAtLeast ["cardId"] 1)
  return page

/-- The event, with the user it was done on behalf of. -/
structure EnrichedCardEvent extends CardEvent where
  onBehalfOfUserId : Option Uuid
  deriving DecidableEq

/-- And the names of the users it shows. -/
structure EnrichedActivityEvent extends EnrichedCardEvent where
  actorDisplayName : Option String
  onBehalfOfDisplayName : Option String
  deriving DecidableEq

structure ActivityUser where
  id : Uuid
  displayName : String
  email : String
  deriving DecidableEq

structure ActivityFeed where
  items : List EnrichedActivityEvent
  nextCursor : Option String
  users : List ActivityUser
  deriving DecidableEq

namespace BoardQueryService

/-- The single root of the card list. Where the walk does not end, the body would not
return; here it throws. -/
def locationSubtreeIds (rootId : Uuid) : Tx (List Uuid) := do
  let all ← LocationRepository.list
  .require (subtreeIds (all.length + 1) rootId (childrenByParentOf all))
    (.failure "the walk of the locations does not end")

/-- Several tags stand in for the one of older callers. -/
def wantedTags (filter : ListCardsFilter) : List String :=
  (filter.tags <|> filter.tag.map fun tag => [tag]).getD []

/-- Run a body for a value that is there, and keep what it gives. -/
def givenPresent {α β : Type} (value : Option α) (body : α → Tx β) : Tx (Option β) :=
  match value with
  | some a => do return some (← body a)
  | none => pure none

/-- The day before which a card must have been expected back. -/
def overdueDay (filter : ListCardsFilter) : Tx (Option Day) :=
  if filter.overdueResume = some true then do return some (utcDayOf (← clockNow)) else pure none

def toRepoFilter (boardId : Uuid) (filter : ListCardsFilter) :
    Tx CardRepository.CardQueryFacets := do
  let lane ← givenPresent filter.lane (laneByKey boardId)
  let locationIds ← givenPresent filter.locationId locationSubtreeIds
  let overdueBefore ← overdueDay filter
  return {
    boardId := some boardId
    laneId := lane.map (·.id)
    assigneeId := filter.assignee
    reporterId := filter.reporter
    priority := filter.priority
    locationIds := locationIds.getD []
    tags := wantedTags filter
    blocked := filter.blocked
    waitingReason := filter.waitingReason
    overdueBefore
    q := filter.q
    includeArchived := filter.includeArchived.getD false
    archivedOnly := filter.archivedOnly.getD false }

/-- The users whose activity counts as the caller's own: the caller and the tokens they made.
For a token that is its maker, or the token alone when it is not known. -/
def selfActorIds (actor : Actor) : Tx (List Uuid) := do
  let tokens ← ServiceTokenRepository.list
  let userId :=
    if actor.kind = .mcp then (tokens.find? fun token => token.id == actor.id).map (·.createdBy)
    else some actor.id
  match userId with
  | none => return [actor.id]
  | some userId =>
      return userId :: (tokens.filter fun token => token.createdBy == userId).map (·.id)

/-- Whose activity the caller may see; of everyone when there is no list. -/
def feedActorIds (actor : Actor) (policy : PolicyDocument) : Tx (Option (List Uuid)) :=
  if hasPermission actor .viewAllActivity policy then pure none
  else do return some (← selfActorIds actor)

/-- A day back from now, unless the request says since when. -/
def feedSince (raw : ActivityFeedRequest) : Tx Instant :=
  match raw.sinceIso with
  | some sinceIso => pure sinceIso
  | none => do return (← clockNow) - dayMs

/-- An agent's actor id is the user it acts for. -/
def withAgent (event : CardEvent) : EnrichedCardEvent where
  toCardEvent := event
  onBehalfOfUserId := if event.actorKind = .agent then event.actorId else none

/-- A token's event shows the token's name and its maker. -/
def withToken (tokens : List ServiceToken) (event : EnrichedCardEvent) : EnrichedCardEvent :=
  if event.actorKind = .mcp then
    match event.actorId.bind fun id => tokens.find? fun token => token.id == id with
    | none => event
    | some token =>
        { event with actorLabel := some token.name, onBehalfOfUserId := some token.createdBy }
  else event

def enrichMcpActors (events : List CardEvent) : Tx (List EnrichedCardEvent) := do
  if events.any (·.actorKind == .mcp) then
    let tokens ← ServiceTokenRepository.list
    return (events.map withAgent).map (withToken tokens)
  else return events.map withAgent

def referencedUserIds (event : EnrichedCardEvent) : List Uuid :=
  (if event.actorKind = .user ∨ event.actorKind = .slack ∨ event.actorKind = .agent then
    event.actorId.toList else []) ++
  event.onBehalfOfUserId.toList ++
  match event.body with
  | .created snapshot => snapshot.card.reporterId :: snapshot.card.assigneeId.toList
  | _ => []

def displayNameOf (users : List ActivityUser) (id : Uuid) : Option String :=
  (users.find? fun user => user.id == id).map (·.displayName)

def withNames (users : List ActivityUser) (event : EnrichedCardEvent) : EnrichedActivityEvent where
  toEnrichedCardEvent := event
  actorDisplayName :=
    if event.actorKind = .user ∨ event.actorKind = .slack then
      event.actorId.bind (displayNameOf users)
    else none
  onBehalfOfDisplayName := event.onBehalfOfUserId.bind (displayNameOf users)

/-- The users that the page refers to, and the page with their names. -/
def resolveActivityNames (events : List EnrichedCardEvent) (nextCursor : Option String) :
    Tx ActivityFeed := do
  let referenced := events.flatMap referencedUserIds
  let users ← UserAccountRepository.list
  let users := (users.filter fun user => referenced.contains user.id).map fun user =>
    (⟨user.id, user.displayName, user.email⟩ : ActivityUser)
  return ⟨events.map (withNames users), nextCursor, users⟩

def reviewKey : LaneKey := "review"

/-- When the card last arrived in the review lane, or else its creation. -/
def reviewEnteredAt (card : Card) : Tx Instant := do
  let newest ← EventRepository.latestByCard card.id [.statusChanged]
  return match newest with
    | some event =>
        match event.body with
        | .statusChanged payload =>
            if payload.toLane = reviewKey then event.createdAt else card.createdAt
        | _ => card.createdAt
    | none => card.createdAt

def cardKey (card : Card) : CursorKey := ⟨card.createdAt, .number card.id⟩

def eventKey (event : CardEvent) : CursorKey := ⟨event.createdAt, .uuid event.id⟩

variable [KeyTexts]

/-- Slice what one row more than the limit gave, and make a token of the last key. -/
def paginate {α : Type} (rows : List α) (limit : ℕ) (keyOf : α → CursorKey) :
    Except DomainError (Page α String) := do
  let page := slice keyOf limit rows
  return ⟨page.items, ← page.nextCursor.mapM encodeCursor⟩

/-- A card's audit history, oldest first. -/
def cardHistory (actor : Actor) (cardId : ℕ) (raw : CardHistoryRequest) :
    Tx (Page EnrichedCardEvent String) := do
  let (cursor, limit) ← .ofExcept raw.toPageRequest.parse
  let after ← .ofExcept (cursor.mapM decodeCursor)
  let _ ← accessibleCard actor cardId
  let events ← EventRepository.listByCard cardId (raw.type.map fun type => [type]) after
    (some (limit + 1))
  let page ← .ofExcept (paginate events limit eventKey)
  return ⟨← enrichMcpActors page.items, page.nextCursor⟩

/-- The activity of the board, newest first: of everyone for those who may see it, else the
caller's own. -/
def eventsSince (boardId : Uuid) (actor : Actor) (raw : ActivityFeedRequest) : Tx ActivityFeed := do
  let (cursor, limit) ← .ofExcept raw.parse
  let sinceIso ← feedSince raw
  let after ← .ofExcept (cursor.mapM decodeCursor)
  let _ ← requireBoardAccess actor boardId
  let policy ← activePolicy boardId
  let actorIds ← feedActorIds actor policy
  let events ← EventRepository.listBoardSince sinceIso {
      boardId, types := raw.type.map fun type => [type], cardId := raw.cardId
      actorKind := raw.actorKind, actorIds } after (some (limit + 1))
  let page ← .ofExcept (paginate events limit eventKey)
  resolveActivityNames (← enrichMcpActors page.items) page.nextCursor

variable [Platform]

/-- The cards of the board that a filter asks for, newest first. -/
def listCards (boardId : Uuid) (actor : Actor) (raw : ListCardsFilter) (rawPage : PageRequest) :
    Tx (Page Card String) := do
  let filter ← .ofExcept raw.parse
  let (cursor, limit) ← .ofExcept rawPage.parse
  let after ← .ofExcept (cursor.mapM decodeCursor)
  let _ ← requireBoardAccess actor boardId
  let repoFilter ← toRepoFilter boardId filter
  let items ← CardRepository.queryPage repoFilter after (some (limit + 1))
  .ofExcept (paginate items limit cardKey)

end BoardQueryService
end AiKanban.Services
