import AiKanban.Server.SetupService

/-!
# Slack identities

A Slack account acts as the board user with its verified address. The binding is stored once, by
whoever resolves it first: the listener of an incoming event or the notifier of an outgoing one.
Every repository call of a resolution is a unit of work of its own, with a question to Slack
between two of them.
-/
namespace AiKanban.Domain

structure UpdateProfileInput where
  timezone : String
  theme : Theme
  deriving DecidableEq

def UpdateProfileInput.parse [AuthPlatform] (raw : UpdateProfileInput) :
    Except DomainError UpdateProfileInput := do
  check (AuthPlatform.isTimeZone raw.timezone) ["timezone"]
  return raw

end AiKanban.Domain

namespace AiKanban.Db.UserAccountRepository

open Domain Relational Transactions

def findById (id : Uuid) : Tx (Option UserCredentials) := .read fun v => v.users.find? id

/-- `lower(email) = lower(?)` -/
def findByEmail (email : String) : Tx (Option UserCredentials) :=
  .read fun v => v.users.rows.find? fun row => asciiLower row.user.email == asciiLower email

/-- Exact match on the stored binding. -/
def findBySlackUserId (slackUserId : String) : Tx (Option UserCredentials) :=
  .read fun v => v.users.rows.find? fun row => row.user.slackUserId == some slackUserId

end AiKanban.Db.UserAccountRepository

namespace AiKanban.Server

open Domain Db Policy Services Transactions

/-- A user who is bound to another Slack account is not rebound. -/
def bindSlackIdentity (user : User) (slackUserId : String) : Tx (Option User) :=
  if user.slackUserId.any (· != slackUserId) then return none
  else do
    let bound := { user with slackUserId := some slackUserId }
    UserAccountRepository.update bound
    return some bound

/-- The board user a Slack account acts as; `email` is what Slack knows of the account. -/
def resolveSlackUser (slackUserId : String) (email : Option String) : Tx (Option User) := do
  match ← UserAccountRepository.findBySlackUserId slackUserId with
  | some bound => return if bound.user.isActive then some bound.user else none
  | none =>
    match email with
    | none => return none
    | some email => do
      match ← UserAccountRepository.findByEmail email with
      | some byEmail =>
        if byEmail.user.isActive then bindSlackIdentity byEmail.user slackUserId else return none
      | none => return none

namespace SlackNotifier

/-- The recipient is still active and still sees the card's board. -/
def visible (recipientId : Uuid) (cardId : ℕ) : Tx Bool := do
  match ← UserRepository.findById recipientId, ← CardRepository.findById cardId with
  | some current, some card =>
    if current.isActive then do
      match ← BoardRepository.findById card.boardId with
      | some board => canAccessBoard { kind := .user, id := current.id, role := current.role } board
      | none => return false
    else return false
  | _, _ => return false

/-- `found` is the Slack account with the user's address, where Slack knows one. -/
def lookupAndBind (user : User) (found : Option String) : Tx (Option String) :=
  match found with
  | none => return none
  | some slackUserId => do
    let bound ← bindSlackIdentity user slackUserId
    return bound.bind (·.slackUserId)

/-- The channel a message goes to; the recipient was read in an earlier unit of work. -/
def dmUser (recipient : User) (cardId : ℕ) (found : Option String) : Tx (Option String) := do
  if ← visible recipient.id cardId then
    match recipient.slackUserId with
    | some slackUserId => return some slackUserId
    | none => lookupAndBind recipient found
  else return none

/-- A completed card's reporter is looked up and told; an overdue card's recipients likewise. -/
def notify (recipientId : Uuid) (cardId : ℕ) (found : Option String) : Tx (Option String) := do
  match ← UserAccountRepository.findById recipientId with
  | some account => dmUser account.user cardId found
  | none => return none

end SlackNotifier

/-- A user's own display preferences; every other column is written as it was read. -/
def AuthService.updateProfile [AuthPlatform] (userId : Uuid) (raw : UpdateProfileInput) :
    Tx User := do
  let input ← .ofExcept raw.parse
  let found ← requireFound (← UserRepository.findById userId) "user"
  let updated := { found with timezone := input.timezone, theme := input.theme }
  UserAccountRepository.update updated
  return updated

end AiKanban.Server
