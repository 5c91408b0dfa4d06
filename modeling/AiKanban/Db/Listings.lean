import AiKanban.Db.Repositories
import AiKanban.Domain.Cursor
import AiKanban.Pagination.Keyset

/-!
# Listings of cards and events

The filtered reads of the card and event repositories: the conditions a filter puts on a row,
the rows after a cursor, and a limit.
-/
namespace AiKanban.Db

open Domain Relational Transactions

section cursors

/-- Older than the cursor; the card repository makes a number of the id, which for a uuid is
no number that anything is below. -/
def olderThanNumber (key : CursorKey) (createdAt : Instant) (id : ℕ) : Bool :=
  decide (createdAt < key.createdAt) || decide (createdAt = key.createdAt) &&
    match key.id with
    | .number n => decide (id < n)
    | .uuid _ => false

/-- The event repository makes a text of the id and compares it with the stored uuid. -/
def olderThanUuid [KeyTexts] (key : CursorKey) (createdAt : Instant) (id : Uuid) : Bool :=
  decide (createdAt < key.createdAt) || decide (createdAt = key.createdAt) &&
    match key.id with
    | .uuid other => decide (id < other)
    | .number n => decide (KeyTexts.uuidText id < decimal n)

def newerThanUuid [KeyTexts] (key : CursorKey) (createdAt : Instant) (id : Uuid) : Bool :=
  decide (key.createdAt < createdAt) || decide (createdAt = key.createdAt) &&
    match key.id with
    | .uuid other => decide (other < id)
    | .number n => decide (decimal n < KeyTexts.uuidText id)

/-- `LIMIT`, when there is one. -/
def limited {ρ : Type} : Option ℕ → List ρ → List ρ
  | none, rows => rows
  | some limit, rows => rows.take limit

end cursors

section cards

/-- `escape '\'` keeps the wildcards of the needle literal, and both sides are folded. -/
def likeContains (text needle : String) : Bool :=
  decide ((asciiLower needle).toList <:+: (asciiLower text).toList)

/-- `/^\d+$/` and the number it spells. -/
def ticketNumber (q : String) : Option ℕ := readDecimal q.toList

/-- The substring of title and description, or the number of the card. -/
def textMatches (q : String) (card : Card) : Bool :=
  likeContains (card.title ++ "\n" ++ card.description) q || ticketNumber q == some card.id

/-- One of the values; an empty list is no condition. -/
def anyOf {α : Type} (values : List α) (p : α → Bool) : Bool := values.isEmpty || values.any p

namespace CardRepository

/-- Every facet of a query. An absent list and an empty one are the same. -/
structure CardQueryFacets extends CardQueryFilter where
  laneIds : List Uuid := []
  assigneeId : Option Uuid := none
  assigneeIds : List Uuid := []
  reporterId : Option Uuid := none
  reporterIds : List Uuid := []
  priority : Option Priority := none
  priorities : List Priority := []
  locationIds : List Uuid := []
  tags : List String := []
  blocked : Option Bool := none
  waitingReason : Option WaitingReason := none
  overdueCandidate : Bool := false
  q : Option String := none
  includeArchived : Bool := false
  archivedOnly : Bool := false

/-- The card carries a tag whose stored name folds to one of the wanted names. -/
def carriesTag (v : Store) (card : Card) (wanted : List String) : Bool :=
  (TagRepository.cardTagRows v card.id).any fun tag => wanted.contains (asciiLower tag.name)

variable [Platform]

/-- The wanted tag names are folded by the runtime, the stored ones by the database. -/
def filterConditions (v : Store) (filter : CardQueryFacets) (card : Card) : Bool :=
  (if filter.archivedOnly then card.archivedAt.isSome
    else filter.includeArchived || card.archivedAt.isNone) &&
  filter.boardId.all (· == card.boardId) &&
  filter.laneId.all (· == card.laneId) &&
  anyOf filter.laneIds (· == card.laneId) &&
  filter.assigneeId.all (some · == card.assigneeId) &&
  anyOf filter.assigneeIds (some · == card.assigneeId) &&
  filter.reporterId.all (· == card.reporterId) &&
  anyOf filter.reporterIds (· == card.reporterId) &&
  filter.priority.all (· == card.priority) &&
  anyOf filter.priorities (· == card.priority) &&
  anyOf filter.locationIds (some · == card.locationId) &&
  filter.blocked.all (· == card.blocked) &&
  filter.waitingReason.all (some · == card.waitingReason) &&
  filter.overdueBefore.all (fun day => card.expectedResumeAt.any fun d => decide (d < day)) &&
  (!filter.overdueCandidate || card.workStartedAt.isSome && card.estimateMinutes.isSome) &&
  (filter.tags.isEmpty || carriesTag v card (filter.tags.map Platform.toLowerCase)) &&
  filter.q.all fun q => textMatches q card

/-- Newest first, strictly older than the cursor. -/
def queryPage (filter : CardQueryFacets) (after : Option CursorKey) (limit : Option ℕ) :
    Tx (List Card) :=
  .read fun v => limited limit (newestFirst (·.createdAt) (·.id) (v.cards.rows.filter fun card =>
    filterConditions v filter card && after.all fun key => olderThanNumber key card.createdAt card.id))

/-- The query of the card services is the one without the other facets and without pages. -/
theorem queryPage_bare (filter : CardQueryFilter) :
    queryPage { toCardQueryFilter := filter } none none = query filter := by
  have hsame : ∀ (v : Store) (card : Card),
      filterConditions v { toCardQueryFilter := filter } card = filter.matches card := by
    intro v card
    simp [filterConditions, CardQueryFilter.matches, anyOf]
  simp only [queryPage, query, limited, hsame, Option.all_none, Bool.and_true]

end CardRepository
end cards

section events

variable [KeyTexts]

namespace EventRepository

/-- A card's history, oldest first, strictly newer than the cursor. -/
def listByCard (cardId : ℕ) (types : Option (List CardEventType)) (after : Option CursorKey)
    (limit : Option ℕ) : Tx (List CardEvent) :=
  .read fun v => limited limit (newestFirst (·.createdAt) (·.id) (v.cardEvents.rows.filter fun e =>
    e.cardId == cardId && types.all (·.contains e.body.eventType) &&
      after.all fun key => newerThanUuid key e.createdAt e.id)).reverse

/-- What a feed asks of an event. -/
structure BoardSinceFilter where
  boardId : Uuid
  types : Option (List CardEventType) := none
  cardId : Option ℕ := none
  actorKind : Option ActorKind := none
  actorIds : Option (List Uuid) := none

def BoardSinceFilter.matches (filter : BoardSinceFilter) (sinceIso : Instant) (v : Store)
    (e : CardEvent) : Bool :=
  decide (sinceIso ≤ e.createdAt) && filter.types.all (·.contains e.body.eventType) &&
    filter.cardId.all (· == e.cardId) && filter.actorKind.all (· == e.actorKind) &&
    filter.actorIds.all (fun ids => e.actorId.any ids.contains) &&
    v.cards.rows.any fun card => card.id == e.cardId && card.boardId == filter.boardId

/-- The activity of a board, newest first, strictly older than the cursor. -/
def listBoardSince (sinceIso : Instant) (filter : BoardSinceFilter) (after : Option CursorKey)
    (limit : Option ℕ) : Tx (List CardEvent) :=
  .read fun v => limited limit (newestFirst (·.createdAt) (·.id) (v.cardEvents.rows.filter fun e =>
    filter.matches sinceIso v e && after.all fun key => olderThanUuid key e.createdAt e.id))

end EventRepository
end events
end AiKanban.Db
