import AiKanban.Domain.Commands
import AiKanban.Services.CardCreate

/-!
# Lane, location and user administration

The admin services of the server, each operation with its input parsed first.
-/
namespace AiKanban.Server

open Domain Db Policy Services Transactions

/-- The document an admin surface consults: the board's own, under the global roles. -/
def loadActivePolicy (boardId : Uuid) : Tx PolicyDocument := activePolicy boardId

def ensureGranted (actor : Actor) (perm : Permission) (boardId : Uuid) : Tx Unit := do
  .ofExcept (ensurePermission actor perm (← loadActivePolicy boardId))

namespace LaneAdminService

/-- Every mutation needs access to the board and the `manageLanes` grant. -/
def authorize (boardId : Uuid) (actor : Actor) : Tx Unit := do
  let _ ← requireBoardAccess actor boardId
  ensureGranted actor .manageLanes boardId

def update (boardId : Uuid) (actor : Actor) (laneId : Uuid) (raw : UpdateLaneInput) : Tx Lane := do
  let input ← .ofExcept raw.parse
  authorize boardId actor
  let lanes ← LaneRepository.listByBoard boardId
  let lane ← Program.require (lanes.find? fun candidate => candidate.id == laneId) (.notFound "lane")
  let next := { lane with
    label := input.label.getD lane.label
    wipLimit := input.wipLimit.getD lane.wipLimit }
  LaneRepository.update next
  return next

section key

variable [Platform]

def isKeyChar (c : Char) : Bool := isLowerLetter c || ('0' ≤ c && c ≤ '9')

/-- Replace every run of other characters by one underscore. -/
def slugChars : List Char → List Char
  | [] => []
  | c :: cs =>
      if isKeyChar c then c :: slugChars cs
      else match slugChars cs with
        | '_' :: rest => '_' :: rest
        | rest => '_' :: rest

/-- The slug of a label, at most 36 characters, `lane` when nothing is left. -/
def laneKeyBase (label : String) : String :=
  let slug := slugChars (Platform.toLowerCase label).toList
  let bare := ((slug.dropWhile (· == '_')).reverse.dropWhile (· == '_')).reverse
  let lettered := match bare with
    | c :: cs => if '0' ≤ c ∧ c ≤ '9' then "lane_".toList ++ c :: cs else c :: cs
    | [] => []
  let base := lettered.take 36
  if base.isEmpty then "lane" else String.ofList base

/-- The first free suffix from `suffix` on; one of as many tries as keys are taken is free. -/
def freeKey (base : String) (taken : List LaneKey) : ℕ → ℕ → LaneKey
  | 0, suffix => base ++ "_" ++ toString suffix
  | fuel + 1, suffix =>
      let key := base ++ "_" ++ toString suffix
      if taken.contains key then freeKey base taken fuel (suffix + 1) else key

/-- A stable machine key from a human label. -/
def uniqueLaneKey (label : String) (taken : List LaneKey) : Except DomainError LaneKey := do
  let base := laneKeyBase label
  let key := if taken.contains base then freeKey base taken taken.length 2 else base
  slugKey [] key
  return key

/-- Adds a column at the end of the board. -/
def create (boardId : Uuid) (actor : Actor) (raw : CreateLaneInput) : Tx Lane := do
  let input ← .ofExcept raw.parse
  authorize boardId actor
  let existing ← LaneRepository.listByBoard boardId
  let key ← .ofExcept (uniqueLaneKey input.label (existing.map (·.key)))
  let position := existing.foldl (fun max lane => Max.max max lane.position) (-1) + 1
  let lane : Lane := {
    id := ← newId, boardId, key, label := input.label, position, wipLimit := input.wipLimit }
  LaneRepository.insert lane
  return lane

end key

/-- Removes any column but the last one, once it holds no card. -/
def remove (boardId : Uuid) (actor : Actor) (laneId : Uuid) : Tx Unit := do
  authorize boardId actor
  let lanes ← LaneRepository.listByBoard boardId
  let lane ← Program.require (lanes.find? fun candidate => candidate.id == laneId) (.notFound "lane")
  Program.ensure (1 < lanes.length) (.conflict "a board must keep at least one column" none)
  let edge ← CardRepository.edgeOfLane lane.id .first
  Program.ensure edge.isNone
    (.conflict "move its cards to another column before deleting it" none)
  LaneRepository.remove lane.id

/-- Rewrites the column order; the list must name every lane of the board exactly once. -/
def reorder (boardId : Uuid) (actor : Actor) (raw : ReorderLanesInput) : Tx (List Lane) := do
  let input ← .ofExcept raw.parse
  authorize boardId actor
  let existing ← LaneRepository.listByBoard boardId
  Program.ensure (input.orderedIds.length == existing.length && decide input.orderedIds.Nodup &&
      input.orderedIds.all fun id => existing.any fun lane => lane.id == id)
    (.conflict "the reorder must list every column exactly once" none)
  LaneRepository.reorder boardId input.orderedIds
  LaneRepository.listByBoard boardId

end LaneAdminService

namespace LocationAdminService

/-- The kind a parent must have; none for a root. -/
def requiredParentKind : LocationKind → Option LocationKind
  | .building => none
  | .floor => some .building
  | .room => some .floor

def kindName : LocationKind → String
  | .building => "building"
  | .floor => "floor"
  | .room => "room"

def ensureParent (kind : LocationKind) (parentId : Option Uuid) : Tx Unit :=
  match requiredParentKind kind, parentId with
  | none, none => pure ()
  | none, some _ => .throw (.requestValidation "parentId" "a building cannot have a parent")
  | some required, none =>
      .throw (.requestValidation "parentId"
        ("a " ++ kindName kind ++ " requires a " ++ kindName required ++ " parent"))
  | some required, some id => do
      let parent ← requireFound (← LocationRepository.findById id) "parent location"
      Program.ensure (parent.kind == required) (.requestValidation "parentId"
        ("a " ++ kindName kind ++ " must sit under a " ++ kindName required))

section names

variable [Platform]

/-- No sibling may carry the name; a location being renamed is not its own sibling. -/
def ensureUniqueSiblingName (parentId : Option Uuid) (name : String) (selfId : Option Uuid) :
    Tx Unit := do
  let normalized := Platform.toLowerCase (trim name)
  let locations ← LocationRepository.list
  Program.ensure (locations.all fun location =>
      some location.id == selfId || location.parentId != parentId ||
        Platform.toLowerCase (trim location.name) != normalized)
    (.conflict ("a location named “" ++ name ++ "” already exists here") none)

def create (boardId : Uuid) (actor : Actor) (raw : CreateLocationInput) : Tx Location := do
  let input ← .ofExcept raw.parse
  let location : Location := {
    id := ← newId, parentId := input.parentId, kind := input.kind, name := input.name }
  ensureGranted actor .manageLocations boardId
  ensureParent input.kind input.parentId
  ensureUniqueSiblingName input.parentId input.name none
  LocationRepository.insert location
  return location

/-- Rename only. -/
def update (boardId : Uuid) (actor : Actor) (locationId : Uuid) (raw : UpdateLocationInput) :
    Tx Location := do
  let input ← .ofExcept raw.parse
  ensureGranted actor .manageLocations boardId
  let found ← requireFound (← LocationRepository.findById locationId) "location"
  ensureUniqueSiblingName found.parentId input.name (some found.id)
  let next := { found with name := input.name }
  LocationRepository.update next
  return next

end names

/-- The location and its whole subtree go together; cards lose the reference. -/
def delete (boardId : Uuid) (actor : Actor) (locationId : Uuid) : Tx Unit := do
  ensureGranted actor .manageLocations boardId
  LocationRepository.delete locationId

end LocationAdminService

/-- What the user administration is built with. -/
structure UserAdminServiceDeps where
  boardId : Uuid
  systemUserId : Uuid
  deriving DecidableEq

/-- A one-time password and its hash, made outside the unit of work. -/
structure TempPassword where
  password : String
  hash : String
  deriving DecidableEq

namespace UserAdminService

def roleExists (policy : PolicyDocument) (roleKey : Role) : Bool :=
  policy.roles.any fun role => role.key == roleKey

def manageUsersRoleKeys (policy : PolicyDocument) : List Role :=
  (policy.roles.filter fun role => role.permissions.contains .manageUsers).map (·.key)

def unknownRole (role : Role) : DomainError :=
  .requestValidation "role" ("unknown role \"" ++ role ++ "\"")

/-- Revoke browser and delegated credentials in the account change's transaction. -/
def revokeUserCredentials (userId : Uuid) (keepSessionHash : Option String) : Tx Unit := do
  SessionRepository.revokeOthersForUser userId keepSessionHash
  OAuthRepositories.revokeCodesForUser userId
  OAuthRepositories.revokeAccessTokensForUser userId
  OAuthRepositories.revokeRefreshTokensForUser userId

section

variable [Platform]

def create (deps : UserAdminServiceDeps) (actor : Actor) (raw : CreateUserInput)
    (temp : TempPassword) : Tx (User × TempPassword) := do
  let input ← .ofExcept raw.parse
  let user : User := {
    id := ← newId, email := Platform.toLowerCase input.email, displayName := input.displayName
    role := input.role, mustChangePassword := true, slackUserId := none, isActive := true
    timezone := "America/Los_Angeles", theme := .system, createdAt := ← clockNow }
  let policy ← loadActivePolicy deps.boardId
  .ofExcept (ensurePermission actor .manageUsers policy)
  Program.ensure (roleExists policy input.role) (unknownRole input.role)
  UserAccountRepository.insert user temp.hash
  return (user, temp)

end

/-- The last active account that can manage users keeps that capability. -/
def ensureOtherAdmin (deps : UserAdminServiceDeps) (adminRoles : List Role) (found : User)
    (input : UpdateUserInput) : Tx Unit :=
  if adminRoles.contains found.role && found.isActive &&
      (input.role.any (!adminRoles.contains ·) || input.isActive == some false) then do
    let users ← UserAccountRepository.list
    Program.ensure (users.any fun candidate =>
      adminRoles.contains candidate.role && candidate.isActive && candidate.id != found.id &&
        candidate.id != deps.systemUserId) .lastActiveAdmin
  else pure ()

/-- Role changes, deactivation and password resets revoke the user's credentials. -/
def update (deps : UserAdminServiceDeps) (actor : Actor) (userId : Uuid) (raw : UpdateUserInput)
    (temp : TempPassword) : Tx (User × Option TempPassword) := do
  let input ← .ofExcept raw.parse
  let policy ← loadActivePolicy deps.boardId
  .ofExcept (ensurePermission actor .manageUsers policy)
  CardService.forPresent input.role fun role =>
    Program.ensure (roleExists policy role) (unknownRole role)
  let found ← requireFound (← UserRepository.findById userId) "user"
  ensureOtherAdmin deps (manageUsersRoleKeys policy) found input
  let updated := { found with
    displayName := input.displayName.getD found.displayName
    role := input.role.getD found.role
    isActive := input.isActive.getD found.isActive
    mustChangePassword := input.resetPassword || found.mustChangePassword }
  UserAccountRepository.update updated
  if input.resetPassword then
    UserAccountRepository.setPassword userId temp.hash true
  if updated.role ≠ found.role ∨ (found.isActive ∧ ¬ updated.isActive) ∨ input.resetPassword then
    revokeUserCredentials userId none
  return (updated, if input.resetPassword then some temp else none)

end UserAdminService
end AiKanban.Server
