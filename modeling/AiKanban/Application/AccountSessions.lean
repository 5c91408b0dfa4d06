import AiKanban.Application.Concurrency
import AiKanban.Server.SlackIdentity

/-!
# Writers of user rows

Slack resolutions, the notifier's lookups, profile updates and admin updates, with their
statements in any order. A resolution writes in its last unit of work only, and until then it
holds no lock; so the orders of the units of work of SQLite are among the orders of statements.
-/
namespace AiKanban.Application

open Domain Db Policy Server Services Transactions

/-- Whoever resolves a Slack account. -/
inductive SlackCall where
  | resolve (slackUserId : String) (email : Option String)
  | notify (recipientId : Uuid) (cardId : ℕ) (found : Option String)

def SlackCall.body : SlackCall → Tx Unit
  | .resolve slackUserId email => discard (resolveSlackUser slackUserId email)
  | .notify recipientId cardId found => discard (SlackNotifier.notify recipientId cardId found)

inductive AccountCall where
  | slack (call : SlackCall)
  | profile (userId : Uuid) (raw : UpdateProfileInput)
  | admin (deps : UserAdminServiceDeps) (actor : Actor) (userId : Uuid) (raw : UpdateUserInput)
      (temp : TempPassword)

def AccountCall.body [AuthPlatform] : AccountCall → Tx Unit
  | .slack call => call.body
  | .profile userId raw => discard (AuthService.updateProfile userId raw)
  | .admin deps actor userId raw temp => discard (UserAdminService.update deps actor userId raw temp)

/-- The account an admin update is about. -/
def AccountCall.administered : AccountCall → Option Uuid
  | .admin _ _ userId _ _ => some userId
  | _ => none

/-- Calls of which none has begun. -/
def unbegun {κ : Type} (bodies : κ → Tx Unit) (s : Store) (inputs : ℕ → Tick) : PgConfig κ Unit where
  committed := s
  sessions caller := .ready [bodies caller]
  inputs := inputs
  drawn := 0

end AiKanban.Application
