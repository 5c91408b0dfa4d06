import AiKanban.Services.CardCollaboration

/-!
# Notifications

A committed card event is fanned out to the watchers of its card.
-/
namespace AiKanban

open Domain Db Relational Transactions Services

namespace Db

def EventRepository.findById (id : Uuid) : Tx (Option CardEvent) := selectKey id

def CardWatcherRepository.listWatcherIds (cardId : ℕ) : Tx (List Uuid) :=
  .read fun v => (v.cardWatchers.rows.filter fun r => r.cardId == cardId).map (·.userId)

end Db

namespace Services.NotificationService

/-- Reorders, edits and deletions of comments are noise. -/
def isNotifiableEvent : CardEventType → Bool
  | .reordered | .commentEdited | .commentDeleted => false
  | _ => true

/-- The users a comment mentions were told already. -/
def mentionedUserIds : CardEventBody → List Uuid
  | .commentAdded _ _ mentionedUserIds => mentionedUserIds
  | _ => []

/-- A comment is linked to; the other events have none. -/
def commentIdOf : CardEventBody → Option Uuid
  | .commentAdded commentId _ _ => some commentId
  | _ => none

def excluded (event : CardEvent) (id : Uuid) : Bool :=
  event.actorId == some id || (mentionedUserIds event.body).contains id

/-- Adds a watcher who is not excluded, is active and may see the board. -/
def addRecipient (board : Board) (event : CardEvent) (recipients : List Uuid) (id : Uuid) :
    Tx (List Uuid) :=
  if excluded event id then pure recipients
  else do
    match ← UserRepository.findById id with
    | none => return recipients
    | some user =>
        if !user.isActive then return recipients
        else
          let accessible ←
            canAccessBoard { kind := .user, id := user.id, role := user.role } board
          return if accessible then recipients ++ [id] else recipients

def notify (cardId : ℕ) (event : CardEvent) (nowIso : Instant) (userId : Uuid) : Tx Unit := do
  NotificationRepository.insert {
    id := ← newId, userId, cardId, actorId := event.actorId, eventType := .event event.body.eventType
    commentId := commentIdOf event.body, createdAt := nowIso, readAt := none }

/-- The recipients, each with a notification. -/
def fanOut (cardId : ℕ) (board : Board) (event : CardEvent) : Tx (List Uuid) := do
  let watchers ← CardWatcherRepository.listWatcherIds cardId
  let recipients ← Program.foldM (addRecipient board event) [] watchers
  let nowIso ← clockNow
  Program.forEach (notify cardId event nowIso) recipients
  return recipients

def fanOutForEvent (cardId : ℕ) (eventId : Uuid) : Tx (List Uuid) := do
  match ← EventRepository.findById eventId with
  | none => return []
  | some event =>
      if !isNotifiableEvent event.body.eventType then return []
      else
        match ← CardRepository.findById cardId with
        | none => return []
        | some card =>
            if event.cardId ≠ cardId then return []
            else
              match ← BoardRepository.findById card.boardId with
              | none => return []
              | some board => fanOut cardId board event

end Services.NotificationService
end AiKanban
