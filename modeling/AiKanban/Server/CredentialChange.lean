import AiKanban.Server.Authentication
import AiKanban.Server.SlackIdentity

/-!
# Changes of credentials

The units of work, besides the administration of users, that revoke what an account has
delegated: a user changes the password, and the recovery command resets an administrator.
-/
namespace AiKanban.Server

open Domain Db Transactions

namespace AuthService

def currentPasswordMismatch : DomainError := .failure "current password is incorrect"

/-- The unit of work that ends a change of password. `checkedHash` is the hash that the current
password was verified against; the account or the session may have changed since. -/
def replacePassword (userId : Uuid) (checkedHash newHash keepHash : String) : Tx Unit := do
  let current ← UserAccountRepository.findById userId
  let session ← SessionRepository.findByHash keepHash
  Program.ensure (current.any fun row => row.user.isActive && row.passwordHash == checkedHash)
    currentPasswordMismatch
  let session ← Program.require session currentPasswordMismatch
  Program.ensure (session.userId == userId) currentPasswordMismatch
  let now ← clockNow
  Program.ensure (now < session.expiresAt) currentPasswordMismatch
  UserAccountRepository.setPassword userId newHash false
  UserAdminService.revokeUserCredentials userId (some keepHash)

end AuthService

namespace CreateAdmin

def activeAdminExists (email : String) : DomainError :=
  .failure ("an active admin (" ++ email ++ ") already exists — pass --force to add or reset anyway")

/-- An existing account becomes an administrator with a temporary password. -/
def resetExisting (existing : User) (temp : TempPassword) : Tx User := do
  let user := { existing with role := "admin", isActive := true, mustChangePassword := true }
  UserAccountRepository.update user
  UserAccountRepository.setPassword user.id temp.hash true
  UserAdminService.revokeUserCredentials user.id none
  return user

/-- The part of an address before its first `@`. -/
def localPart (email : String) : String := String.ofList (email.toList.takeWhile (· != '@'))

def insertFresh (email : String) (temp : TempPassword) : Tx User := do
  let user : User := {
    id := ← newId, email, displayName := localPart email, role := "admin"
    mustChangePassword := true, slackUserId := none, isActive := true
    timezone := defaultTimezone, theme := .system, createdAt := ← clockNow }
  UserAccountRepository.insert user temp.hash
  return user

/-- The account of the address is reset, or there is a new one. -/
def promote (email : String) (temp : TempPassword) (w : World Store Tick) :
    Except DomainError User × World Store Tick :=
  match transact (UserAccountRepository.findByEmail email) w with
  | (.error e, w) => (.error e, w)
  | (.ok (some existing), w) => transact (resetExisting existing.user temp) w
  | (.ok none, w) => transact (insertFresh email temp) w

/-- `users create-admin`: three units of work, and no lock between them. -/
def createAdminUser [Platform] (systemUserId : Uuid) (email : String) (force : Bool)
    (temp : TempPassword) (w : World Store Tick) : Except DomainError User × World Store Tick :=
  match transact UserAccountRepository.list w with
  | (.error e, w) => (.error e, w)
  | (.ok users, w) =>
    match users.find? fun u => u.role == "admin" && u.isActive && u.id != systemUserId, force with
    | some admin, false => (.error (activeAdminExists admin.email), w)
    | _, _ => promote (Platform.toLowerCase email) temp w

end CreateAdmin

end AiKanban.Server
