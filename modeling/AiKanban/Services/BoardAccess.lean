import AiKanban.Services.Internal

/-!
# Board access

Who may see a board. Roles are application-wide.
-/
namespace AiKanban.Services

open Domain Db Policy Transactions

def memberOfAny (userId : Uuid) : List Uuid → Tx Bool
  | [] => pure false
  | id :: ids => do
      let group ← GroupRepository.findById id
      if group.any (·.userIds.contains userId) then pure true else memberOfAny userId ids

def canAccessBoard (actor : Actor) (board : Board) : Tx Bool :=
  if board.archivedAt.isSome then pure false
  else do
    let policy ← globalPolicy
    if hasPermission actor .managePolicy policy then pure true
    else if board.accessMode == .all || board.allowedRoleKeys.contains actor.role then pure true
    -- A service token is its own identity: only role grants apply.
    else if actor.kind == .mcp then pure false
    else if board.allowedUserIds.contains actor.id then pure true
    else memberOfAny actor.id board.allowedGroupIds

def requireBoardAccess (actor : Actor) (boardId : Uuid) : Tx Board := do
  let board ← requireFound (← BoardRepository.findById boardId) "board"
  let accessible ← canAccessBoard actor board
  Program.ensure accessible (.notFound "board")
  return board

/-- Always before version checks: conflict payloads contain the current card. -/
def accessibleCard (actor : Actor) (cardId : ℕ) : Tx Card := do
  let card ← requireFound (← CardRepository.findById cardId) "card"
  let _ ← requireBoardAccess actor card.boardId
  return card

end AiKanban.Services
