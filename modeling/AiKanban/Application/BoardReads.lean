import AiKanban.Services.BoardPages

/-!
# Reads of a board and of its cards

The queries that an actor asks about one board or about one card, with what each answers.
-/
namespace AiKanban.Application

open Domain Db Pagination Services Transactions

inductive BoardRead where
  | boardSnapshot (boardId : Uuid)
  | listCards (boardId : Uuid) (raw : ListCardsFilter) (page : PageRequest)
  | eventsSince (boardId : Uuid) (raw : ActivityFeedRequest)
  | cardDetail (cardId : ℕ)
  | cardDetailWithThread (cardId latestEventsTake : ℕ)
  | cardHistory (cardId : ℕ) (raw : CardHistoryRequest)
  | listComments (cardId : ℕ)
  | listRelations (cardId : ℕ)
  | getAttachment (attachmentId : Uuid)

/-- What a read answers. -/
def BoardRead.Answer : BoardRead → Type
  | .boardSnapshot _ => BoardSnapshot
  | .listCards _ _ _ => Page Card String
  | .eventsSince _ _ => ActivityFeed
  | .cardDetail _ => CardDetail
  | .cardDetailWithThread _ _ => CardDetailWithThread
  | .cardHistory _ _ => Page EnrichedCardEvent String
  | .listComments _ => List Comment
  | .listRelations _ => List CardRelationView
  | .getAttachment _ => Attachment

variable [KeyTexts] [Platform]

/-- The unit of work of a read. -/
def BoardRead.body (actor : Actor) : (read : BoardRead) → Tx read.Answer
  | .boardSnapshot boardId => BoardQueryService.boardSnapshot boardId actor
  | .listCards boardId raw page => BoardQueryService.listCards boardId actor raw page
  | .eventsSince boardId raw => BoardQueryService.eventsSince boardId actor raw
  | .cardDetail cardId => BoardQueryService.cardDetail actor cardId
  | .cardDetailWithThread cardId latestEventsTake =>
      BoardQueryService.cardDetailWithThread actor cardId latestEventsTake
  | .cardHistory cardId raw => BoardQueryService.cardHistory actor cardId raw
  | .listComments cardId => CommentService.listForCard actor cardId
  | .listRelations cardId => CardRelationService.list actor cardId
  | .getAttachment attachmentId => AttachmentService.getActive actor attachmentId

end AiKanban.Application
