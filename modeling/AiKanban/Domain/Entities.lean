import Mathlib.Data.Nat.Notation
import Mathlib.Data.Int.Notation

/-!
# Entities

The rows the services read and write. A uuid is the number its text stands for,
so that text order is number order; an instant is its UTC milliseconds and a day
its number of UTC days, ordered as their ISO texts are.
-/
namespace AiKanban.Domain

abbrev Uuid := ℕ
abbrev Instant := ℤ
abbrev Day := ℤ
abbrev Role := String
abbrev LaneKey := String
abbrev WaitingReason := String

inductive Priority where
  | p0 | p1 | p2
  deriving DecidableEq

/-- Resolutions clients may set through the explicit cancel action. -/
inductive CancelResolution where
  | cancelled | declined | duplicate
  deriving DecidableEq

inductive Resolution where
  | completed | cancelled | declined | duplicate
  deriving DecidableEq

def CancelResolution.toResolution : CancelResolution → Resolution
  | .cancelled => .cancelled
  | .declined => .declined
  | .duplicate => .duplicate

inductive CardOrigin where
  | manual | slack | mcp | import | pm
  deriving DecidableEq

inductive ActorKind where
  | user | mcp | slack | system | agent
  deriving DecidableEq

inductive TokenScope where
  | read | readWrite
  deriving DecidableEq

/-- The OAuth client an `agent` actor acts through. -/
structure ActorClient where
  id : String
  name : String
  deriving DecidableEq

/-- Who is acting, from which surface. -/
structure Actor where
  kind : ActorKind
  id : Uuid
  role : Role
  scope : Option TokenScope := none
  client : Option ActorClient := none
  deriving DecidableEq

inductive Theme where
  | light | dark | system
  deriving DecidableEq

structure User where
  id : Uuid
  email : String
  displayName : String
  role : Role
  mustChangePassword : Bool
  slackUserId : Option String
  isActive : Bool
  timezone : String
  theme : Theme
  createdAt : Instant
  deriving DecidableEq

/-- A user row with the password hash the `User` entity never carries. -/
structure UserCredentials where
  user : User
  passwordHash : String
  deriving DecidableEq

inductive AccessMode where
  | all | restricted
  deriving DecidableEq

structure Board where
  id : Uuid
  name : String
  isDefault : Bool
  archivedAt : Option Instant
  accessMode : AccessMode
  allowedRoleKeys : List Role
  allowedUserIds : List Uuid
  allowedGroupIds : List Uuid
  createdAt : Instant
  deriving DecidableEq

/-- Whom a default board is chosen for; the subject of the application is `all`. -/
inductive DefaultSubject where
  | application
  | role (key : Role)
  | group (id : Uuid)
  | user (id : Uuid)
  deriving DecidableEq

structure BoardDefault where
  subject : DefaultSubject
  boardId : Uuid
  deriving DecidableEq

structure Group where
  id : Uuid
  name : String
  userIds : List Uuid
  createdAt : Instant
  deriving DecidableEq

structure Lane where
  id : Uuid
  boardId : Uuid
  key : LaneKey
  label : String
  position : ℤ
  wipLimit : Option ℕ
  deriving DecidableEq

inductive LocationKind where
  | building | floor | room
  deriving DecidableEq

structure Location where
  id : Uuid
  parentId : Option Uuid
  kind : LocationKind
  name : String
  deriving DecidableEq

structure Card where
  id : ℕ
  boardId : Uuid
  laneId : Uuid
  position : String
  title : String
  description : String
  priority : Priority
  estimateMinutes : Option ℕ
  reporterId : Uuid
  assigneeId : Option Uuid
  locationId : Option Uuid
  origin : CardOrigin
  resolution : Option Resolution
  blocked : Bool
  blockedReason : Option String
  blockedAt : Option Instant
  waitingReason : Option WaitingReason
  expectedResumeAt : Option Day
  resumeAlertedAt : Option Instant
  workStartedAt : Option Instant
  slackChannelId : Option String
  slackThreadTs : Option String
  slackPermalink : Option String
  version : ℕ
  createdAt : Instant
  updatedAt : Instant
  archivedAt : Option Instant
  deriving DecidableEq

structure Tag where
  id : Uuid
  name : String
  deriving DecidableEq

structure CardTag where
  cardId : ℕ
  tagId : Uuid
  deriving DecidableEq

structure Comment where
  id : Uuid
  cardId : ℕ
  parentCommentId : Option Uuid
  authorId : Uuid
  body : String
  createdAt : Instant
  updatedAt : Instant
  deletedAt : Option Instant
  deriving DecidableEq

structure Attachment where
  id : Uuid
  cardId : ℕ
  filename : String
  mime : String
  bytes : ℕ
  sha256 : String
  storageKey : Uuid
  uploadedBy : Uuid
  createdAt : Instant
  deletedAt : Option Instant
  deriving DecidableEq

inductive RelationType where
  | blocks | duplicates | relatesTo
  deriving DecidableEq

def isSymmetricRelation (type : RelationType) : Bool := type == .relatesTo

/-- A stored, directed card-to-card relation. -/
structure CardRelation where
  id : Uuid
  fromCardId : ℕ
  toCardId : ℕ
  type : RelationType
  createdAt : Instant
  deriving DecidableEq

structure CardWatcher where
  cardId : ℕ
  userId : Uuid
  createdAt : Instant
  deriving DecidableEq

structure Session where
  id : String
  userId : Uuid
  createdAt : Instant
  expiresAt : Instant
  lastSeenAt : Instant
  deriving DecidableEq

structure ServiceToken where
  id : Uuid
  name : String
  tokenHash : String
  role : Role
  scope : TokenScope
  createdBy : Uuid
  createdAt : Instant
  lastUsedAt : Option Instant
  revokedAt : Option Instant
  deriving DecidableEq

structure OAuthAuthorizationCode where
  codeHash : String
  clientId : String
  userId : Uuid
  redirectUri : String
  resource : String
  scope : TokenScope
  codeChallenge : String
  expiresAt : Instant
  deriving DecidableEq

structure OAuthAccessToken where
  id : Uuid
  tokenHash : String
  userId : Uuid
  clientId : String
  scope : TokenScope
  resource : String
  expiresAt : Instant
  revokedAt : Option Instant
  lastUsedAt : Option Instant
  createdAt : Instant
  deriving DecidableEq

structure OAuthRefreshToken where
  id : Uuid
  tokenHash : String
  familyId : Uuid
  userId : Uuid
  clientId : String
  scope : TokenScope
  resource : String
  expiresAt : Instant
  usedAt : Option Instant
  revokedAt : Option Instant
  createdAt : Instant
  deriving DecidableEq

end AiKanban.Domain
