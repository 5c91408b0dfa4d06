import AiKanban.Domain.Commands
import AiKanban.Services.BoardAccess

/-!
# Comments, attachments and relations

The services for what hangs on a card. Each operation is its unit of work with the
input parsed first; reads of a thread blank the deleted bodies.
-/
namespace AiKanban.Services

open Domain Db Policy Transactions

namespace CommentService

def requireActiveComment (commentId : Uuid) : Tx Comment := do
  let comment ← requireFound (← CommentRepository.findById commentId) "comment"
  Program.ensure comment.deletedAt.isNone (.notFound "comment")
  return comment

/-- The top-level comment a reply attaches to. -/
def parentOf (card : Card) : Option Uuid → Tx (Option Uuid)
  | none => pure none
  | some id => do
      let parent ← requireFound ((← CommentRepository.findById id).filter fun p =>
        p.cardId == card.id) "parent comment"
      return some (parent.parentCommentId.getD parent.id)

/-- Watch and notify one mentioned user, unless it is the author, unknown or barred. -/
def mention (board : Board) (authorId : Uuid) (cardId : ℕ) (commentId : Uuid) (nowIso : Instant)
    (resolved : List Uuid) (userId : Uuid) : Tx (List Uuid) :=
  if userId = authorId then pure resolved
  else do
    match ← UserRepository.findById userId with
    | none => return resolved
    | some user =>
        if !user.isActive then return resolved
        else
          let accessible ←
            canAccessBoard { kind := .user, id := user.id, role := user.role } board
          if !accessible then return resolved
          else do
            CardWatcherRepository.add cardId userId nowIso
            NotificationRepository.insert {
              id := ← newId, userId, cardId, actorId := some authorId, eventType := .mention
              commentId := some commentId, createdAt := nowIso, readAt := none }
            return resolved ++ [userId]

def resolveMentions (mentions : List Uuid) (authorId : Uuid) (cardId : ℕ) (commentId : Uuid)
    (nowIso : Instant) : Tx (List Uuid) := do
  let card ← requireFound (← CardRepository.findById cardId) "card"
  let board ← requireFound (← BoardRepository.findById card.boardId) "board"
  Program.foldM (mention board authorId cardId commentId nowIso) [] mentions.eraseDups

def add (actor : Actor) (cardId : ℕ) (raw : AddCommentInput) (author : Option Uuid) :
    Tx Comment := do
  let input ← .ofExcept raw.parse
  let targetCard ← accessibleCard actor cardId
  ensureNotArchived targetCard
  let policy ← activePolicy targetCard.boardId
  decidePolicy (evaluatePolicy actor .commentAdd policy)
  let authorId := author.getD actor.id
  let _ ← requireFound (← UserRepository.findById authorId) "author"
  let parentCommentId ← parentOf targetCard input.parentCommentId
  let nowIso ← clockNow
  let created : Comment := {
    id := ← newId, cardId := targetCard.id, parentCommentId, authorId, body := input.body
    createdAt := nowIso, updatedAt := nowIso, deletedAt := none }
  CommentRepository.insert created
  CardWatcherRepository.add targetCard.id authorId nowIso
  let mentionedUserIds ← resolveMentions input.mentions authorId targetCard.id created.id nowIso
  let event ← makeEvent actor targetCard.id
    (.commentAdded created.id created.parentCommentId mentionedUserIds)
  EventRepository.append event
  return created

def edit (actor : Actor) (commentId : Uuid) (raw : EditCommentInput) : Tx Comment := do
  let input ← .ofExcept raw.parse
  let existing ← requireActiveComment commentId
  let targetCard ← accessibleCard actor existing.cardId
  ensureNotArchived targetCard
  let policy ← activePolicy targetCard.boardId
  decidePolicy (evaluatePolicy actor (.commentEdit existing.authorId) policy)
  let updated := { existing with body := input.body, updatedAt := ← clockNow }
  CommentRepository.update updated
  let event ← makeEvent actor targetCard.id (.commentEdited updated.id updated.parentCommentId)
  EventRepository.append event
  return updated

def softDelete (actor : Actor) (commentId : Uuid) : Tx Comment := do
  let existing ← requireActiveComment commentId
  let targetCard ← accessibleCard actor existing.cardId
  ensureNotArchived targetCard
  let policy ← activePolicy targetCard.boardId
  decidePolicy (evaluatePolicy actor (.commentDelete existing.authorId) policy)
  let nowIso ← clockNow
  let updated := { existing with deletedAt := some nowIso, updatedAt := nowIso }
  CommentRepository.update updated
  let event ← makeEvent actor targetCard.id (.commentDeleted updated.id updated.parentCommentId)
  EventRepository.append event
  return updated

/-- Deleted content never leaves the server. -/
def redactDeletedComments (thread : List Comment) : List Comment :=
  thread.map fun comment => if comment.deletedAt.isNone then comment else { comment with body := "" }

def listForCard (actor : Actor) (cardId : ℕ) : Tx (List Comment) := do
  let _ ← accessibleCard actor cardId
  return redactDeletedComments (← CommentRepository.listByCard cardId)

end CommentService

namespace AttachmentService

def maxAttachmentBytes : ℕ := 25 * 1024 * 1024
def maxActiveAttachmentsPerCard : ℕ := 10

/-- The blob is stored under its key before the unit of work begins. -/
def add (actor : Actor) (cardId : ℕ) (raw : AddAttachmentInput) : Tx Attachment := do
  let input ← .ofExcept raw.parse
  Program.ensure (input.byteLength ≤ maxAttachmentBytes)
    (.limitExceeded "attachment exceeds the 25 MB limit" maxAttachmentBytes)
  let storageKey ← newId
  let targetCard ← accessibleCard actor cardId
  ensureNotArchived targetCard
  let policy ← activePolicy targetCard.boardId
  decidePolicy (evaluatePolicy actor .attachmentAdd policy)
  let _ ← requireFound (← UserRepository.findById actor.id) "uploader"
  let existing ← AttachmentRepository.listByCard targetCard.id
  Program.ensure ((existing.filter (·.deletedAt.isNone)).length < maxActiveAttachmentsPerCard)
    (.limitExceeded "card already has the maximum number of active attachments"
      maxActiveAttachmentsPerCard)
  let created : Attachment := {
    id := ← newId, cardId := targetCard.id, filename := input.filename, mime := input.mime
    bytes := input.byteLength, sha256 := input.sha256, storageKey, uploadedBy := actor.id
    createdAt := ← clockNow, deletedAt := none }
  AttachmentRepository.insert created
  let event ← makeEvent actor targetCard.id (.attachmentAdded created.id created.filename)
  EventRepository.append event
  return created

def requireActive (attachmentId : Uuid) : Tx Attachment := do
  let attachment ← requireFound (← AttachmentRepository.findById attachmentId) "attachment"
  Program.ensure attachment.deletedAt.isNone (.notFound "attachment")
  return attachment

def getActive (actor : Actor) (attachmentId : Uuid) : Tx Attachment := do
  let attachment ← requireActive attachmentId
  let _ ← accessibleCard actor attachment.cardId
  return attachment

def remove (actor : Actor) (attachmentId : Uuid) : Tx Attachment := do
  let existing ← requireActive attachmentId
  let targetCard ← accessibleCard actor existing.cardId
  ensureNotArchived targetCard
  let policy ← activePolicy targetCard.boardId
  decidePolicy (evaluatePolicy actor (.attachmentRemove existing.uploadedBy) policy)
  let updated := { existing with deletedAt := some (← clockNow) }
  AttachmentRepository.update updated
  let event ← makeEvent actor targetCard.id (.attachmentRemoved updated.id updated.filename)
  EventRepository.append event
  return updated

end AttachmentService

/-- Which end of the stored row a viewing card is on. -/
inductive RelationDirection where
  | outgoing | incoming
  deriving DecidableEq

/-- A relation from one card's perspective: the other card's summary. -/
structure CardRelationView where
  id : Uuid
  type : RelationType
  direction : RelationDirection
  cardId : ℕ
  title : String
  deriving DecidableEq

namespace CardRelationService

/-- The viewing card's perspective; none when the other card vanished or is barred. -/
def toView (actor : Actor) (cardId : ℕ) (relation : CardRelation) : Tx (Option CardRelationView) := do
  let direction := if relation.fromCardId = cardId then RelationDirection.outgoing else .incoming
  let otherId := if relation.fromCardId = cardId then relation.toCardId else relation.fromCardId
  match ← CardRepository.findById otherId with
  | none => return none
  | some other =>
      match ← BoardRepository.findById other.boardId with
      | none => return none
      | some board =>
          let accessible ← canAccessBoard actor board
          return if accessible then
            some ⟨relation.id, relation.type, direction, other.id, other.title⟩ else none

def views (actor : Actor) (cardId : ℕ) : List CardRelation → Tx (List CardRelationView)
  | [] => pure []
  | relation :: relations => do
      let view ← toView actor cardId relation
      return view.toList ++ (← views actor cardId relations)

def list (actor : Actor) (cardId : ℕ) : Tx (List CardRelationView) := do
  let _ ← accessibleCard actor cardId
  views actor cardId (← CardRelationRepository.listByCard cardId)

/-- What `create` checks, with the type and the two ends of the relation. -/
def createChecks (actor : Actor) (cardId : ℕ) (raw : CreateCardRelationInput) :
    Tx (RelationType × Card × Card) := do
  let input ← .ofExcept raw.parse
  Program.ensure (input.toCardId != cardId) (.conflict "a card cannot be related to itself" none)
  let source ← accessibleCard actor cardId
  let target ← accessibleCard actor input.toCardId
  Program.ensure (source.boardId == target.boardId)
    (.conflict "related cards must be on the same board" none)
  .ofExcept (ensurePermission actor .cardUpdate (← globalPolicy))
  let forward ← CardRelationRepository.exists' source.id target.id input.type
  let backward ← CardRelationRepository.exists' target.id source.id input.type
  Program.ensure (!(forward || (isSymmetricRelation input.type && backward)))
    (.conflict "that relation already exists" none)
  return (input.type, source, target)

def create (actor : Actor) (cardId : ℕ) (raw : CreateCardRelationInput) :
    Tx CardRelationView := do
  let (type, source, target) ← createChecks actor cardId raw
  let relation : CardRelation := {
    id := ← newId, fromCardId := source.id, toCardId := target.id, type, createdAt := ← clockNow }
  CardRelationRepository.insert relation
  return ⟨relation.id, relation.type, .outgoing, target.id, target.title⟩

/-- What `delete` checks, with the relation it will delete. -/
def deleteChecks (actor : Actor) (cardId : ℕ) (relationId : Uuid) : Tx CardRelation := do
  let _ ← accessibleCard actor cardId
  .ofExcept (ensurePermission actor .cardUpdate (← globalPolicy))
  let relation ← requireFound (← CardRelationRepository.findById relationId) "relation"
  -- Another card's relation is indistinguishable from a missing one.
  Program.ensure (relation.fromCardId == cardId || relation.toCardId == cardId)
    (.notFound "relation")
  return relation

def delete (actor : Actor) (cardId : ℕ) (relationId : Uuid) : Tx Unit := do
  let _ ← deleteChecks actor cardId relationId
  CardRelationRepository.delete relationId

end CardRelationService
end AiKanban.Services
