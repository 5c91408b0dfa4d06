import AiKanban.Domain.Schema

/-!
# The policy document

Policy is data: append-only versions per board, with roles that grant a sparse
set of permissions. An absent permission is not granted.
-/
namespace AiKanban.Domain

inductive Permission where
  | cardCreate | cardUpdate | cardMove | cardCancel | cardReopen | cardArchive | cardBlock
  | cardUnblock | commentAdd | commentDeleteOthers | attachmentAdd | attachmentDeleteOthers
  | viewAllActivity | manageUsers | manageRoles | manageLocations | manageLanes | managePolicy
  | manageTokens
  deriving DecidableEq

def Permission.name : Permission → String
  | .cardCreate => "card.create"
  | .cardUpdate => "card.update"
  | .cardMove => "card.move"
  | .cardCancel => "card.cancel"
  | .cardReopen => "card.reopen"
  | .cardArchive => "card.archive"
  | .cardBlock => "card.block"
  | .cardUnblock => "card.unblock"
  | .commentAdd => "comment.add"
  | .commentDeleteOthers => "comment.deleteOthers"
  | .attachmentAdd => "attachment.add"
  | .attachmentDeleteOthers => "attachment.deleteOthers"
  | .viewAllActivity => "viewAllActivity"
  | .manageUsers => "manageUsers"
  | .manageRoles => "manageRoles"
  | .manageLocations => "manageLocations"
  | .manageLanes => "manageLanes"
  | .managePolicy => "managePolicy"
  | .manageTokens => "manageTokens"

/-- A role grants the permissions it lists. -/
structure RoleDefinition where
  key : Role
  name : String
  permissions : List Permission
  deriving DecidableEq

structure PolicyTransition where
  fromLane : LaneKey
  toLane : LaneKey
  deriving DecidableEq

structure BusinessHours where
  startHour : ℕ
  endHour : ℕ
  deriving DecidableEq

/-- Removed choices stay, inactive, so that cards and history keep their meaning. -/
structure WaitingReasonDefinition where
  key : WaitingReason
  label : String
  active : Bool
  deriving DecidableEq

def defaultBusinessHours : BusinessHours := ⟨9, 17⟩

def defaultWaitingReasons : List WaitingReasonDefinition :=
  [⟨"parts", "Parts", true⟩, ⟨"vendor", "Vendor", true⟩, ⟨"access", "Access", true⟩,
    ⟨"info", "Information", true⟩, ⟨"funding", "Funding", true⟩]

structure PolicyDocument where
  transitionEnforcement : Bool
  transitions : List PolicyTransition
  roles : List RoleDefinition
  businessHours : BusinessHours := defaultBusinessHours
  waitingReasons : List WaitingReasonDefinition := defaultWaitingReasons
  deriving DecidableEq

/-- A stored policy version. -/
structure BoardPolicy where
  id : Uuid
  boardId : Uuid
  config : PolicyDocument
  createdBy : Uuid
  createdAt : Instant
  deriving DecidableEq

section parse

variable [Platform]

def WaitingReasonDefinition.parse (reason : WaitingReasonDefinition) :
    Except DomainError WaitingReasonDefinition := do
  let label := trim reason.label
  slugKey ["waitingReasons", "key"] reason.key
  boundedText ["waitingReasons", "label"] 1 80 label
  return { reason with label }

def parseWaitingReasons (reasons : List WaitingReasonDefinition) :
    Except DomainError (List WaitingReasonDefinition) := do
  let parsed ← reasons.mapM WaitingReasonDefinition.parse
  check (parsed.any (·.active)) ["waitingReasons"]
  check (decide (parsed.map (·.key)).Nodup) ["waitingReasons"]
  check (decide ((parsed.filter (·.active)).map fun r => Platform.toLowerCase r.label).Nodup)
    ["waitingReasons"]
  return parsed

/-- `policyDocumentSchema.parse`; the error names the first field it rejects. -/
def PolicyDocument.parse (document : PolicyDocument) : Except DomainError PolicyDocument := do
  checkEach document.transitions fun edge => do
    slugKey ["transitions", "from"] edge.fromLane
    slugKey ["transitions", "to"] edge.toLane
  check (!document.roles.isEmpty) ["roles"]
  checkEach document.roles fun role => do
    slugKey ["roles", "key"] role.key
    boundedText ["roles", "name"] 1 60 role.name
  check (document.businessHours.startHour ≤ 23) ["businessHours", "startHour"]
  check (1 ≤ document.businessHours.endHour && document.businessHours.endHour ≤ 24)
    ["businessHours", "endHour"]
  check (document.businessHours.startHour < document.businessHours.endHour)
    ["businessHours", "endHour"]
  let waitingReasons ← parseWaitingReasons document.waitingReasons
  check (decide (document.roles.map (·.key)).Nodup) ["roles"]
  check (document.roles.any fun role => role.permissions.contains .manageRoles) ["roles"]
  check (document.transitions.all fun edge => edge.fromLane != edge.toLane) ["transitions"]
  check (decide document.transitions.Nodup) ["transitions"]
  return { document with waitingReasons }

end parse

def userRole : RoleDefinition where
  key := "user"
  name := "User"
  permissions := [.cardCreate, .cardUpdate, .cardMove, .cardCancel, .cardReopen, .cardArchive,
    .cardBlock, .cardUnblock, .commentAdd, .attachmentAdd]

def adminRole : RoleDefinition where
  key := "admin"
  name := "Administrator"
  permissions := [.cardCreate, .cardUpdate, .cardMove, .cardCancel, .cardReopen, .cardArchive,
    .cardBlock, .cardUnblock, .commentAdd, .commentDeleteOthers, .attachmentAdd,
    .attachmentDeleteOthers, .viewAllActivity, .manageUsers, .manageRoles, .manageLocations,
    .manageLanes, .managePolicy, .manageTokens]

/-- The seeded default: enforcement off, the workflow graph ready to activate. -/
def defaultPolicyDocument : PolicyDocument where
  transitionEnforcement := false
  transitions := [⟨"intake", "waiting_approval"⟩, ⟨"waiting_approval", "ready"⟩,
    ⟨"waiting_approval", "intake"⟩, ⟨"ready", "in_progress"⟩, ⟨"in_progress", "ready"⟩,
    ⟨"in_progress", "waiting_parts_vendor"⟩, ⟨"waiting_parts_vendor", "in_progress"⟩,
    ⟨"in_progress", "review"⟩, ⟨"review", "done"⟩, ⟨"review", "in_progress"⟩, ⟨"done", "ready"⟩]
  roles := [userRole, adminRole]

end AiKanban.Domain
