import AiKanban.Services.BoardAccess

/-!
# The board catalog

The boards an actor may open, and the one to open first.
-/
namespace AiKanban.Services

open Domain Db Policy Transactions

/-- Where the default board of a catalog comes from. -/
inductive DefaultSource where
  | personal | group | role | application | fallback
  deriving DecidableEq

structure BoardCatalog where
  items : List Board
  canManage : Bool
  preferredBoardId : Option Uuid
  defaultBoardId : Option Uuid
  defaultSource : DefaultSource
  defaultAssignments : List BoardDefault
  deriving DecidableEq

namespace BoardService

/-- Discovery needs a name and an id, not other people's access assignments. -/
def discovered (canManage : Bool) (board : Board) : Board :=
  if canManage then board
  else { board with allowedRoleKeys := [], allowedUserIds := [], allowedGroupIds := [] }

/-- The accessible boards among those listed, as the catalog shows them. -/
def visibleItems (actor : Actor) (canManage : Bool) : List Board → Tx (List Board)
  | [] => pure []
  | board :: boards => do
      let accessible ← canAccessBoard actor board
      let rest ← visibleItems actor canManage boards
      return if accessible then discovered canManage board :: rest else rest

/-- The boards of the group defaults whose group has the user as a member. -/
def groupBoards (userId : Uuid) : List BoardDefault → Tx (List Uuid)
  | [] => pure []
  | row :: rows =>
      match row.subject with
      | .group id => do
          let group ← GroupRepository.findById id
          let rest ← groupBoards userId rows
          return if group.any (·.userIds.contains userId) then row.boardId :: rest else rest
      | _ => groupBoards userId rows

/-- The one element of a list, however often it occurs. -/
def onlyOne (ids : List Uuid) : Option Uuid :=
  match ids.eraseDups with
  | [id] => some id
  | _ => none

/-- The board a default names for the subject. -/
def assigned (rows : List BoardDefault) (subject : DefaultSubject) : Option Uuid :=
  (rows.find? fun row => row.subject == subject).map (·.boardId)

/-- The board of the first personal default listed. -/
def personalBoard (rows : List BoardDefault) : Option Uuid :=
  (rows.find? fun row => match row.subject with | .user _ => true | _ => false).map (·.boardId)

/-- The configured defaults in the order they are tried. -/
def candidates (actor : Actor) (rows : List BoardDefault) (groups : List Uuid) :
    List (DefaultSource × Option Uuid) :=
  [(.personal, personalBoard rows), (.group, onlyOne groups),
    (.role, assigned rows (.role actor.role)), (.application, assigned rows .application)]

/-- Assignments shown to the actor: role and group defaults are for managers. -/
def shownAssignment (canManage : Bool) (row : BoardDefault) : Bool :=
  match row.subject with
  | .application => true
  | .user _ => false
  | _ => canManage

/-- The catalog of boards already read, with the defaults that name one of them. -/
def catalog (actor : Actor) (canManage : Bool) (items : List Board) (rows : List BoardDefault)
    (groups : List Uuid) : BoardCatalog :=
  let chosen := (candidates actor rows groups).find? fun candidate => candidate.2.isSome
  { items, canManage
    preferredBoardId := personalBoard rows
    defaultBoardId := (chosen.bind (·.2)).orElse fun _ => items.head?.map (·.id)
    defaultSource := (chosen.map (·.1)).getD .fallback
    defaultAssignments := rows.filter (shownAssignment canManage) }

def list (actor : Actor) : Tx BoardCatalog := do
  let canManage := hasPermission actor .managePolicy (← globalPolicy)
  let items ← visibleItems actor canManage (← BoardRepository.list)
  let defaults ← BoardRepository.listDefaults (if actor.kind = .user then some actor.id else none)
  let allowedDefaults := defaults.filter fun row => items.any fun board => board.id == row.boardId
  let groups ← if actor.kind = .user then groupBoards actor.id allowedDefaults else pure []
  return catalog actor canManage items allowedDefaults groups

end BoardService
end AiKanban.Services
