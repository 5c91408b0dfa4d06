import AiKanban.Domain.Schema

/-!
# Command inputs

One structure per command, with the schema's defaults as its field defaults. An
absent optional field is `none`; `parse` trims and checks as the schema does, and
its error names the first field it rejects.
-/
namespace AiKanban.Domain

structure CreateCardInput where
  title : String
  description : String := ""
  priority : Priority := .p2
  assigneeId : Option Uuid := none
  locationId : Option Uuid := none
  tags : List String := []
  estimateMinutes : Option ℕ := none
  deriving DecidableEq

def parseTags (names : List String) : Except DomainError (List String) := do
  let tags := names.map trim
  checkEach tags (boundedText ["tags"] 1 50)
  return tags

def CreateCardInput.parse (raw : CreateCardInput) : Except DomainError CreateCardInput := do
  let title := trim raw.title
  boundedText ["title"] 1 200 title
  boundedText ["description"] 0 20000 raw.description
  let tags ← parseTags raw.tags
  whenPresent raw.estimateMinutes (integerAtLeast ["estimateMinutes"] 1)
  return { raw with title, tags }

/-- Field edits. A nullable field given as `null` is `some none`. -/
structure UpdateCardInput where
  title : Option String := none
  description : Option String := none
  priority : Option Priority := none
  estimateMinutes : Option (Option ℕ) := none
  assigneeId : Option (Option Uuid) := none
  locationId : Option (Option Uuid) := none
  tags : Option (List String) := none
  waitingReason : Option WaitingReason := none
  expectedResumeAt : Option Day := none
  expectedVersion : ℕ
  deriving DecidableEq

def UpdateCardInput.parse (raw : UpdateCardInput) : Except DomainError UpdateCardInput := do
  let title := raw.title.map trim
  whenPresent title (boundedText ["title"] 1 200)
  whenPresent raw.description (boundedText ["description"] 0 20000)
  whenPresent raw.estimateMinutes fun minutes =>
    whenPresent minutes (integerAtLeast ["estimateMinutes"] 1)
  let tags ← raw.tags.mapM parseTags
  whenPresent raw.waitingReason (slugKey ["waitingReason"])
  integerAtLeast ["expectedVersion"] 1 raw.expectedVersion
  return { raw with title, tags }

structure MoveCardInput where
  toLane : LaneKey
  prevCardId : Option ℕ := none
  nextCardId : Option ℕ := none
  waitingReason : Option WaitingReason := none
  expectedResumeAt : Option Day := none
  expectedVersion : ℕ
  deriving DecidableEq

def MoveCardInput.parse (raw : MoveCardInput) : Except DomainError MoveCardInput := do
  slugKey ["toLane"] raw.toLane
  whenPresent raw.prevCardId (integerAtLeast ["prevCardId"] 1)
  whenPresent raw.nextCardId (integerAtLeast ["nextCardId"] 1)
  whenPresent raw.waitingReason (slugKey ["waitingReason"])
  integerAtLeast ["expectedVersion"] 1 raw.expectedVersion
  return raw

/-- What a card entering the waiting lane must be given. -/
structure WaitingLaneEntry where
  waitingReason : WaitingReason
  expectedResumeAt : Day
  deriving DecidableEq

/-- `waitingLaneEntrySchema.parse`; the move command has checked the reason's shape. -/
def WaitingLaneEntry.parse (waitingReason : Option WaitingReason) (expectedResumeAt : Option Day) :
    Except DomainError WaitingLaneEntry :=
  match waitingReason, expectedResumeAt with
  | some reason, some day => .ok ⟨reason, day⟩
  | none, _ => .error (.invalidInput ["waitingReason"])
  | some _, none => .error (.invalidInput ["expectedResumeAt"])

structure CancelCardInput where
  resolution : CancelResolution
  expectedVersion : ℕ
  deriving DecidableEq

def CancelCardInput.parse (raw : CancelCardInput) : Except DomainError CancelCardInput := do
  integerAtLeast ["expectedVersion"] 1 raw.expectedVersion
  return raw

/-- Reopen, archive and unblock carry only the optimistic lock. -/
structure VersionInput where
  expectedVersion : ℕ
  deriving DecidableEq

def VersionInput.parse (raw : VersionInput) : Except DomainError VersionInput := do
  integerAtLeast ["expectedVersion"] 1 raw.expectedVersion
  return raw

structure BlockCardInput where
  reason : String
  expectedVersion : ℕ
  deriving DecidableEq

def BlockCardInput.parse (raw : BlockCardInput) : Except DomainError BlockCardInput := do
  let reason := trim raw.reason
  boundedText ["reason"] 1 500 reason
  integerAtLeast ["expectedVersion"] 1 raw.expectedVersion
  return { raw with reason }

structure AddCommentInput where
  body : String
  parentCommentId : Option Uuid := none
  mentions : List Uuid := []
  deriving DecidableEq

def AddCommentInput.parse (raw : AddCommentInput) : Except DomainError AddCommentInput := do
  let body := trim raw.body
  boundedText ["body"] 1 10000 body
  check (raw.mentions.length ≤ 50) ["mentions"]
  return { raw with body }

structure EditCommentInput where
  body : String
  deriving DecidableEq

def EditCommentInput.parse (raw : EditCommentInput) : Except DomainError EditCommentInput := do
  let body := trim raw.body
  boundedText ["body"] 1 10000 body
  return { raw with body }

/-- Attachment metadata; of the content only its length matters here. -/
structure AddAttachmentInput where
  filename : String
  mime : String
  byteLength : ℕ
  sha256 : String
  deriving DecidableEq

def isSha256 (s : String) : Bool :=
  s.toList.length == 64 && s.toList.all fun c => ('0' ≤ c && c ≤ '9') || ('a' ≤ c && c ≤ 'f')

def AddAttachmentInput.parse (raw : AddAttachmentInput) :
    Except DomainError AddAttachmentInput := do
  let filename := trim raw.filename
  boundedText ["filename"] 1 255 filename
  check (1 ≤ utf16Length raw.mime) ["mime"]
  check (isSha256 raw.sha256) ["sha256"]
  return { raw with filename }

structure CreateCardRelationInput where
  toCardId : ℕ
  type : RelationType
  deriving DecidableEq

def CreateCardRelationInput.parse (raw : CreateCardRelationInput) :
    Except DomainError CreateCardRelationInput := do
  integerAtLeast ["toCardId"] 1 raw.toCardId
  return raw

structure CreateLaneInput where
  label : String
  wipLimit : Option ℕ := none
  deriving DecidableEq

def CreateLaneInput.parse (raw : CreateLaneInput) : Except DomainError CreateLaneInput := do
  let label := trim raw.label
  boundedText ["label"] 1 50 label
  whenPresent raw.wipLimit (integerAtLeast ["wipLimit"] 1)
  return { raw with label }

structure UpdateLaneInput where
  label : Option String := none
  wipLimit : Option (Option ℕ) := none
  deriving DecidableEq

def UpdateLaneInput.parse (raw : UpdateLaneInput) : Except DomainError UpdateLaneInput := do
  let label := raw.label.map trim
  whenPresent label (boundedText ["label"] 1 50)
  whenPresent raw.wipLimit fun limit => whenPresent limit (integerAtLeast ["wipLimit"] 1)
  check (raw.label.isSome || raw.wipLimit.isSome) []
  return { raw with label }

structure ReorderLanesInput where
  orderedIds : List Uuid
  deriving DecidableEq

def ReorderLanesInput.parse (raw : ReorderLanesInput) : Except DomainError ReorderLanesInput := do
  check (!raw.orderedIds.isEmpty) ["orderedIds"]
  return raw

structure CreateLocationInput where
  parentId : Option Uuid := none
  kind : LocationKind
  name : String
  deriving DecidableEq

def CreateLocationInput.parse (raw : CreateLocationInput) :
    Except DomainError CreateLocationInput := do
  let name := trim raw.name
  boundedText ["name"] 1 100 name
  return { raw with name }

structure UpdateLocationInput where
  name : String
  deriving DecidableEq

def UpdateLocationInput.parse (raw : UpdateLocationInput) :
    Except DomainError UpdateLocationInput := do
  let name := trim raw.name
  boundedText ["name"] 1 100 name
  return { raw with name }

structure CreateUserInput where
  email : String
  displayName : String
  role : Role
  deriving DecidableEq

/-- The address itself is checked by the schema library. -/
def CreateUserInput.parse (raw : CreateUserInput) : Except DomainError CreateUserInput := do
  boundedText ["email"] 0 254 raw.email
  let displayName := trim raw.displayName
  boundedText ["displayName"] 1 100 displayName
  boundedText ["role"] 1 40 raw.role
  return { raw with displayName }

structure UpdateUserInput where
  displayName : Option String := none
  role : Option Role := none
  isActive : Option Bool := none
  resetPassword : Bool := false
  deriving DecidableEq

def UpdateUserInput.parse (raw : UpdateUserInput) : Except DomainError UpdateUserInput := do
  let displayName := raw.displayName.map trim
  whenPresent displayName (boundedText ["displayName"] 1 100)
  whenPresent raw.role (boundedText ["role"] 1 40)
  check (raw.displayName.isSome || raw.role.isSome || raw.isActive.isSome || raw.resetPassword) []
  return { raw with displayName }

structure DefaultAssignments where
  application : Bool
  roleKeys : List Role
  groupIds : List Uuid
  deriving DecidableEq

structure BoardInput where
  name : String
  accessMode : AccessMode
  allowedRoleKeys : List Role
  allowedUserIds : List Uuid
  allowedGroupIds : List Uuid := []
  defaultAssignments : Option DefaultAssignments := none
  deriving DecidableEq

def BoardInput.parse (raw : BoardInput) : Except DomainError BoardInput := do
  let name := trim raw.name
  boundedText ["name"] 1 80 name
  check (raw.allowedRoleKeys.length ≤ 100) ["allowedRoleKeys"]
  checkEach raw.allowedRoleKeys (boundedText ["allowedRoleKeys"] 1 40)
  check (raw.allowedUserIds.length ≤ 1000) ["allowedUserIds"]
  check (raw.allowedGroupIds.length ≤ 100) ["allowedGroupIds"]
  whenPresent raw.defaultAssignments fun assignments => do
    check (assignments.roleKeys.length ≤ 100) ["defaultAssignments", "roleKeys"]
    check (assignments.groupIds.length ≤ 1000) ["defaultAssignments", "groupIds"]
  return { raw with name }

structure GroupInput where
  name : String
  userIds : List Uuid
  deriving DecidableEq

def GroupInput.parse (raw : GroupInput) : Except DomainError GroupInput := do
  let name := trim raw.name
  boundedText ["name"] 1 80 name
  check (raw.userIds.length ≤ 1000) ["userIds"]
  return { raw with name }

end AiKanban.Domain
