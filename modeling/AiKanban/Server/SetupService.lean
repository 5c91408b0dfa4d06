import AiKanban.Server.AdminServices

/-!
# First-boot setup

While no user but the automation user exists, a call that needs no sign-in creates the first
administrator and signs them in.
-/
namespace AiKanban.Domain

/-- What the authentication services take from outside: the hashes, and the tables they consult. -/
class AuthPlatform extends Platform where
  sha256 : String → String
  /-- Whether a password is the one that was hashed. -/
  verify : String → String → Bool
  isTimeZone : String → Bool
  /-- The list of common passwords, in lower case. -/
  isCommonPassword : String → Bool

/-- Digests that can be told apart, and hashes that are the password itself. -/
@[reducible] def sampleAuthPlatform : AuthPlatform where
  toPlatform := samplePlatform
  sha256 text := "sha256:" ++ text
  verify hash password := hash == password
  isTimeZone zone := zone == "America/Los_Angeles" || zone == "Europe/Paris"
  isCommonPassword password := password == "passwordpassword"

def defaultTimezone : String := "America/Los_Angeles"

structure SetupAdminInput where
  email : String
  displayName : String
  password : String
  timezone : String := defaultTimezone
  theme : Theme := .system
  deriving DecidableEq

/-- The address itself is checked by the schema library. -/
def SetupAdminInput.parse [AuthPlatform] (raw : SetupAdminInput) :
    Except DomainError SetupAdminInput := do
  boundedText ["email"] 0 254 raw.email
  let displayName := trim raw.displayName
  boundedText ["displayName"] 1 100 displayName
  boundedText ["password"] 1 1024 raw.password
  check (AuthPlatform.isTimeZone raw.timezone) ["timezone"]
  return { raw with displayName }

end AiKanban.Domain

namespace AiKanban.Db

open Domain Relational Transactions

/-- `COUNT` without the automation user, any status. -/
def UserAccountRepository.countHumanUsers (excludedSystemUserId : Uuid) : Tx ℕ :=
  .read fun v => (v.users.rows.filter fun row => row.user.id != excludedSystemUserId).length

def SessionRepository.create (session : Session) : Tx Unit :=
  insertRow session (fun _ => uniqueViolation) danglingReference

end AiKanban.Db

namespace AiKanban.Server

open Domain Db Policy Services Transactions

/-- Seven days idle. -/
def sessionIdleMs : ℤ := 7 * 86400000

/-- Thirty days in all. -/
def sessionAbsoluteMs : ℤ := 30 * 86400000

/-- The earlier of the idle and the absolute expiry. -/
def foldedExpiry (createdAt now : Instant) : Instant :=
  min (now + sessionIdleMs) (createdAt + sessionAbsoluteMs)

section credentials

variable [AuthPlatform]

/-- The only form of a raw session id that touches the database. -/
def sessionHashOf (rawSessionId : String) : String := AuthPlatform.sha256 rawSessionId

/-- The row of a fresh session; its raw id has just been drawn. -/
def mintSession (userId : Uuid) (rawSessionId : String) (now : Instant) : Session where
  id := sessionHashOf rawSessionId
  userId
  createdAt := now
  expiresAt := foldedExpiry now now
  lastSeenAt := now

def passwordMinLength : ℕ := 12
def passwordMaxLength : ℕ := 128

def passwordPolicyViolation (password : String) : Option String :=
  if utf16Length password < passwordMinLength then
    some ("password must be at least " ++ toString passwordMinLength ++ " characters")
  else if passwordMaxLength < utf16Length password then
    some ("password must be at most " ++ toString passwordMaxLength ++ " characters")
  else if AuthPlatform.isCommonPassword (Platform.toLowerCase password) then
    some "password is too common"
  else none

/-- A password the policy stands against. -/
def ensurePasswordPolicy (password : String) : Except DomainError Unit :=
  match passwordPolicyViolation password with
  | some violation => .error (.failure violation)
  | none => .ok ()

end credentials

structure LoginResult where
  user : User
  rawSessionId : String
  deriving DecidableEq

/-- A call, with what is drawn for it outside the unit of work. -/
structure SetupCall where
  raw : SetupAdminInput
  passwordHash : String
  now : Instant
  userId : Uuid
  rawSessionId : String
  deriving DecidableEq

namespace SetupService

def setupAlreadyComplete : DomainError :=
  .failure "setup is already complete — a user account already exists"

section

variable [AuthPlatform]

/-- The account and its session, before the unit of work. -/
def prepare (call : SetupCall) : Except DomainError (User × Session) := do
  let input ← call.raw.parse
  ensurePasswordPolicy input.password
  let user : User := {
    id := call.userId, email := Platform.toLowerCase input.email, displayName := input.displayName
    role := "admin", mustChangePassword := false, slackUserId := none, isActive := true
    timezone := input.timezone, theme := input.theme, createdAt := call.now }
  return (user, mintSession user.id call.rawSessionId call.now)

/-- The account and its session, once no user has been counted. -/
def insertAdmin (call : SetupCall) (user : User) (session : Session) : Tx LoginResult := do
  UserAccountRepository.insert user call.passwordHash
  SessionRepository.create session
  return ⟨user, call.rawSessionId⟩

def createFirstAdmin (systemUserId : Uuid) (call : SetupCall) : Tx LoginResult := do
  let (user, session) ← .ofExcept (prepare call)
  let humans ← UserAccountRepository.countHumanUsers systemUserId
  Program.ensure (humans == 0) setupAlreadyComplete
  insertAdmin call user session

end

end SetupService
end AiKanban.Server
