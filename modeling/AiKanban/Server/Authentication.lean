import AiKanban.Server.SetupService

/-!
# Authentication

A raw session id is resolved on the read path. The write that may follow slides the session's
expiry, at most once in five minutes, or revokes the session of a deactivated user.
-/
namespace AiKanban

namespace Db.SessionRepository

open Domain Relational Transactions

def findByHash (idHash : String) : Tx (Option Session) := selectKey idHash

def touch (idHash : String) (lastSeenAt expiresAt : Instant) : Tx Unit :=
  modifyWhere (fun r : Session => r.id == idHash) fun r => { r with lastSeenAt, expiresAt }

def revoke (idHash : String) : Tx Unit := deleteWhere fun r : Session => r.id == idHash

end Db.SessionRepository

namespace Server.AuthService

open Domain Db Transactions

/-- Five minutes. -/
def sessionTouchThrottleMs : ℤ := 5 * 60000

/-- The session under the hash while it is open, and its user. -/
def resolve (idHash : String) (nowIso : Instant) : Tx (Option (Session × User)) := do
  match ← SessionRepository.findByHash idHash with
  | none => return none
  | some session =>
      if session.expiresAt ≤ nowIso then return none
      else do
        let user ← UserRepository.findById session.userId
        return user.map fun user => (session, user)

/-- The write of an own unit of work that a resolved session asks for. -/
def followUp (idHash : String) (now : Instant) (session : Session) (user : User) : Tx Unit :=
  if user.isActive = false then SessionRepository.revoke idHash
  else if sessionTouchThrottleMs ≤ now - session.lastSeenAt then
    SessionRepository.touch idHash now (foldedExpiry session.createdAt now)
  else pure ()

variable [AuthPlatform]

/-- The live user of a raw session id. The touch is not awaited by the caller; here it is
applied before the next call. -/
def authenticate (rawSessionId : String) (now : Instant) (w : World Store Tick) :
    Option User × World Store Tick :=
  match transact (resolve (sessionHashOf rawSessionId) now) w with
  | (.ok (some (session, user)), w') =>
      (if user.isActive then some user else none,
        (transact (followUp (sessionHashOf rawSessionId) now session user) w').2)
  | (_, w') => (none, w')

end Server.AuthService
end AiKanban
