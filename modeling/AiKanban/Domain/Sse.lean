import AiKanban.Domain.Events

/-!
# Hints of the event stream

A hint carries no data: a client that receives it fetches again.
-/
namespace AiKanban.Domain

/-- Changes that alter what everyone may do. -/
inductive BoardHintType where
  | boardUpdated | policyUpdated | laneUpdated | userUpdated | locationUpdated
  deriving DecidableEq

inductive SseHint where
  | card (type : CardEventType) (cardId : ℕ) (version : ℕ) (eventId : Uuid)
  | board (type : BoardHintType)
  deriving DecidableEq

/-- The events whose type begins with `card.`. -/
def CardEventType.onCard : CardEventType → Bool
  | .commentAdded | .commentEdited | .commentDeleted | .attachmentAdded | .attachmentRemoved => false
  | _ => true

/-- Whether a hint can change the board itself: its lanes and the rows of its cards. -/
def affectsBoardSnapshot : SseHint → Bool
  | .card type _ _ _ => type.onCard
  | .board type => decide (type = .laneUpdated)

end AiKanban.Domain
