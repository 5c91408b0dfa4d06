import AiKanban.Web.BoardCache
import AiKanban.Policy.PolicyEngine

/-!
# Recorded inverses of card actions

The web client keeps for each explicit action on a card the action that undoes it and the one that
does it again. Both are sent for the card as the board shows it then.
-/
namespace AiKanban.Web

open Domain Policy

/-- What a surface can ask for a card, never by a drag. -/
inductive CardAction where
  | cancel (resolution : CancelResolution)
  | reopen
  | archive
  | block (reason : String)
  | unblock
deriving DecidableEq

/-- The actions with a recorded inverse. -/
inductive UndoableActionArgs where
  | cancel (resolution : CancelResolution)
  | archive
  | block (reason : String)
  | unblock
deriving DecidableEq

def UndoableActionArgs.action : UndoableActionArgs → CardAction
  | .cancel resolution => .cancel resolution
  | .archive => .archive
  | .block reason => .block reason
  | .unblock => .unblock

/-- An action of the card with the id, with the gate it passes first. -/
structure RecordedAction where
  cardId : ℕ
  action : CardAction
  gated : Option PolicyAction := none

structure ActionEntry where
  label : String
  undo : RecordedAction
  redo : RecordedAction

/-- There is none for an unblock of a card without a reason. -/
def buildActionEntry (args : UndoableActionArgs) (beforeCard : BoardCard) : Option ActionEntry :=
  let id := beforeCard.id
  match args with
  | .cancel resolution => some {
      label := "work order cancellation"
      undo := { cardId := id, action := .reopen, gated := some .cardReopen }
      redo := { cardId := id, action := .cancel resolution } }
  | .archive => some {
      label := "work order archive"
      undo := { cardId := id, action := .reopen, gated := some .cardReopen }
      redo := { cardId := id, action := .archive } }
  | .block reason => some {
      label := "work order block"
      undo := { cardId := id, action := .unblock }
      redo := { cardId := id, action := .block reason } }
  | .unblock => beforeCard.blockedReason.map fun reason => {
      label := "work order unblock"
      undo := { cardId := id, action := .block reason }
      redo := { cardId := id, action := .unblock } }

def currentCard (board : BoardResponse) (cardId : ℕ) : Option BoardCard :=
  (board.lanes.flatMap (·.cards)).find? (·.id = cardId)

/-- The policy and the role of the user, as they are when the action is sent. -/
structure UndoPolicy where
  policy : Option PolicyDocument
  role : Role

/-- Actors on the client have a fixed id, since its gates ask for the role. -/
def selfId : Uuid := 1

def canPerformAction (policy : PolicyDocument) (role : Role) (action : PolicyAction) : Bool :=
  evaluatePolicy { kind := .user, id := selfId, role } action policy = .allow

/-- The card with its version, and what is sent for it; nothing when the card is not on the board
or the gate is shut. -/
def runAction (board : BoardResponse) (posture : UndoPolicy) (recorded : RecordedAction) :
    Option (BoardCard × CardAction) := do
  let card ← currentCard board recorded.cardId
  match recorded.gated with
  | none => return (card, recorded.action)
  | some gate =>
    let policy ← posture.policy
    if canPerformAction policy posture.role gate then return (card, recorded.action) else none

/-- What is sent is the recorded action, for the card as the board shows it. -/
theorem runAction_eq_some {board : BoardResponse} {posture : UndoPolicy} {recorded : RecordedAction}
    {sent : BoardCard × CardAction} (h : runAction board posture recorded = some sent) :
    currentCard board recorded.cardId = some sent.1 ∧ sent.2 = recorded.action := by
  unfold runAction at h
  obtain ⟨card, hcard, h⟩ := Option.bind_eq_some_iff.mp h
  cases hgate : recorded.gated with
  | none =>
    rw [hgate] at h
    cases h
    exact ⟨hcard, rfl⟩
  | some gate =>
    rw [hgate] at h
    obtain ⟨policy, -, h⟩ := Option.bind_eq_some_iff.mp h
    split_ifs at h
    cases h
    exact ⟨hcard, rfl⟩

end AiKanban.Web
