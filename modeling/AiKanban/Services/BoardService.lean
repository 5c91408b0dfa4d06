import AiKanban.Domain.Commands
import AiKanban.Services.BoardAccess

/-!
# Policies and boards

The services for the policy document, boards, their defaults and user groups.
-/
namespace AiKanban.Services

open Domain Db Policy Transactions

/-- Visit a list until a step throws. -/
def ensureEach {α : Type} (values : List α) (rule : α → Tx Unit) : Tx Unit :=
  Program.forEach rule values

namespace PolicyService

/-- Removing a definition retires it: stored cards still resolve the same key. -/
def retireReasons (kept current : List WaitingReasonDefinition) : List WaitingReasonDefinition :=
  kept ++ (current.filter fun reason => kept.all (·.key != reason.key)).map fun reason =>
    { reason with active := false }

/-- No active user, live service token or board may be left with an undefined role. -/
def ensureNoOrphanedRole (kept : List Role) : Tx Unit := do
  let boards ← BoardRepository.list
  Program.ensure (boards.all fun board => board.allowedRoleKeys.all kept.contains)
    (.conflict "role-in-use: role is assigned to a board" none)
  let users ← UserAccountRepository.list
  match users.find? fun user => user.isActive && !kept.contains user.role with
  | some user =>
      .throw (.conflict ("role-in-use: role \"" ++ user.role ++ "\" is assigned to a user") none)
  | none =>
      let tokens ← ServiceTokenRepository.list
      match tokens.find? fun token => token.revokedAt.isNone && !kept.contains token.role with
      | some token =>
          .throw
            (.conflict ("role-in-use: role \"" ++ token.role ++ "\" is assigned to a token") none)
      | none => return ()

def getActive (boardId : Uuid) : Tx BoardPolicy := do
  let policy ← requireFound (← PolicyRepository.getActive boardId) "policy"
  return { policy with config := { policy.config with roles := (← globalPolicy).roles } }

variable [Platform]

/-- Applies a new policy version; a change of roles also versions the authority's policy. -/
def apply (boardId : Uuid) (actor : Actor) (document : PolicyDocument) : Tx BoardPolicy := do
  let parsed ← .ofExcept document.parse
  let authority ← requireFound (← BoardRepository.getDefault) "default board"
  let global ← requireFound (← PolicyRepository.getActive authority.id) "policy"
  let _ ← requireBoardAccess actor boardId
  let current ← requireFound (← PolicyRepository.getActive boardId) "policy"
  decidePolicy (evaluatePolicy actor .managePolicy global.config)
  let config := { parsed with
    waitingReasons := retireReasons parsed.waitingReasons current.config.waitingReasons }
  ensureNoOrphanedRole (config.roles.map (·.key))
  ensureEach (global.config.roles.filter fun role => config.roles.all (·.key != role.key))
    fun role => BoardRepository.setDefault (.role role.key) none
  let version : BoardPolicy := {
    id := ← newId, boardId, config, createdBy := actor.id, createdAt := ← clockNow }
  PolicyRepository.insert version
  if authority.id ≠ boardId ∧ global.config.roles ≠ config.roles then
    PolicyRepository.insert { version with
      id := ← newId
      boardId := authority.id
      config := { global.config with roles := config.roles } }
  return version

end PolicyService

/-- Starting columns for new boards and first boot. -/
def defaultLanes : List (LaneKey × String × Option ℕ) :=
  [("intake", "Intake", none), ("waiting_approval", "Waiting for Approval", none),
    ("ready", "Ready", none), ("in_progress", "In Progress", some 5),
    ("waiting_parts_vendor", "Waiting on Parts / Vendor", some 8), ("review", "Review", some 5),
    ("done", "Done", none)]

namespace BoardService

def lockAdministration (actor : Actor) : Tx Unit := do
  let authority ← requireFound (← BoardRepository.getDefault) "default board"
  let policy ← requireFound (← PolicyRepository.getActive authority.id) "policy"
  .ofExcept (ensurePermission actor .managePolicy policy.config)

def requireUser (id : Uuid) : Tx Unit := do
  let _ ← requireFound (← UserRepository.findById id) "user"

def requireGroup (id : Uuid) : Tx Unit := do
  let _ ← requireFound (← GroupRepository.findById id) "group"

def validateAccess (roleKeys : List Role) (userIds groupIds : List Uuid) : Tx Unit := do
  let policy ← globalPolicy
  Program.ensure (roleKeys.all (policy.roles.map (·.key)).contains) (.notFound "role")
  ensureEach userIds.eraseDups requireUser
  ensureEach groupIds.eraseDups requireGroup

/-- The default assignments a board shall have. -/
def desiredDefaults (input : DefaultAssignments) : List DefaultSubject :=
  (if input.application then [.application] else []) ++ input.roleKeys.eraseDups.map .role ++
    input.groupIds.eraseDups.map .group

def saveDefaults (boardId : Uuid) : Option DefaultAssignments → Tx Unit
  | none => pure ()
  | some input => do
      validateAccess input.roleKeys [] input.groupIds
      let desired := desiredDefaults input
      let rows ← BoardRepository.listDefaults none
      ensureEach (rows.filter fun row => row.boardId == boardId && !desired.contains row.subject)
        fun row => BoardRepository.setDefault row.subject none
      ensureEach desired fun subject => BoardRepository.setDefault subject (some boardId)

/-- One starting column, at its place in the list. -/
def insertDefaultLane (boardId : Uuid) (column : (LaneKey × String × Option ℕ) × ℕ) : Tx Unit := do
  let ((key, label, wipLimit), position) := column
  LaneRepository.insert { id := ← newId, boardId, key, label, position, wipLimit }

def create (actor : Actor) (raw : BoardInput) : Tx Board := do
  let input ← .ofExcept raw.parse
  lockAdministration actor
  validateAccess input.allowedRoleKeys input.allowedUserIds input.allowedGroupIds
  let created : Board := {
    id := ← newId, name := input.name, isDefault := false, archivedAt := none
    accessMode := input.accessMode, allowedRoleKeys := input.allowedRoleKeys
    allowedUserIds := input.allowedUserIds, allowedGroupIds := input.allowedGroupIds
    createdAt := ← clockNow }
  BoardRepository.insert created
  saveDefaults created.id input.defaultAssignments
  ensureEach defaultLanes.zipIdx (insertDefaultLane created.id)
  PolicyRepository.insert {
    id := ← newId, boardId := created.id
    config := { defaultPolicyDocument with roles := (← globalPolicy).roles }
    createdBy := actor.id, createdAt := created.createdAt }
  return created

def update (actor : Actor) (boardId : Uuid) (raw : BoardInput) : Tx Board := do
  let input ← .ofExcept raw.parse
  lockAdministration actor
  let current ← requireBoardAccess actor boardId
  validateAccess input.allowedRoleKeys input.allowedUserIds input.allowedGroupIds
  let updated := { current with
    name := input.name, accessMode := input.accessMode, allowedRoleKeys := input.allowedRoleKeys
    allowedUserIds := input.allowedUserIds, allowedGroupIds := input.allowedGroupIds }
  BoardRepository.update updated
  saveDefaults boardId input.defaultAssignments
  return updated

def remove (actor : Actor) (boardId : Uuid) : Tx Unit := do
  lockAdministration actor
  let board ← requireBoardAccess actor boardId
  let boards ← BoardRepository.list
  Program.ensure (1 < boards.length) (.conflict "the last board cannot be deleted" none)
  BoardRepository.update { board with archivedAt := some (← clockNow) }

def setPreference (actor : Actor) (boardId : Option Uuid) : Tx Unit := do
  Program.ensure (actor.kind == .user) (.policyDenied "personal-board-preference")
  let authority ← requireFound (← BoardRepository.getDefault) "default board"
  let _ ← PolicyRepository.getActive authority.id
  match boardId with
  | some id => do
      let _ ← requireBoardAccess actor id
      BoardRepository.setDefault (.user actor.id) (some id)
  | none => BoardRepository.setDefault (.user actor.id) none

/-- The group to save over, when one is named. -/
def existingGroup : Option Uuid → Tx (Option Group)
  | none => pure none
  | some id => do return some (← requireFound (← GroupRepository.findById id) "group")

variable [Platform]

def saveGroup (actor : Actor) (groupId : Option Uuid) (raw : GroupInput) : Tx Group := do
  let input ← .ofExcept raw.parse
  lockAdministration actor
  let existing ← existingGroup groupId
  let groups ← GroupRepository.list
  Program.ensure (groups.all fun item =>
      groupId == some item.id || Platform.toLowerCase item.name != Platform.toLowerCase input.name)
    (.conflict "a group with that name already exists" none)
  ensureEach input.userIds.eraseDups requireUser
  match existing with
  | some group => do
      let saved := { group with name := input.name, userIds := input.userIds.eraseDups }
      GroupRepository.update saved
      return saved
  | none => do
      let saved : Group := {
        id := ← newId, name := input.name, userIds := input.userIds.eraseDups
        createdAt := ← clockNow }
      GroupRepository.insert saved
      return saved

def removeGroup (actor : Actor) (groupId : Uuid) : Tx Unit := do
  lockAdministration actor
  requireGroup groupId
  let boards ← BoardRepository.list
  Program.ensure (boards.all fun board => !board.allowedGroupIds.contains groupId)
    (.conflict "group-in-use: remove this group from board access settings first" none)
  GroupRepository.remove groupId
  BoardRepository.setDefault (.group groupId) none

end BoardService
end AiKanban.Services
