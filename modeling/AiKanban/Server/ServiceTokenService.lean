import AiKanban.Server.AdminServices

/-!
# Service tokens

Admin-issued bearer credentials. Only the hash of the raw token is stored, and rows are
never deleted.
-/
namespace AiKanban.Domain

structure CreateServiceTokenInput where
  name : String
  role : Role
  scope : TokenScope
  deriving DecidableEq

def CreateServiceTokenInput.parse (raw : CreateServiceTokenInput) :
    Except DomainError CreateServiceTokenInput := do
  let name := trim raw.name
  boundedText ["name"] 1 100 name
  boundedText ["role"] 1 40 raw.role
  return { raw with name }

end AiKanban.Domain

namespace AiKanban.Db.ServiceTokenRepository

open Domain Relational Transactions

/-- The unique key a new token violates: its hash, or else its id. -/
def insertViolation (token : ServiceToken) (v : Store) : DomainError :=
  if v.serviceTokens.rows.any fun t => t.tokenHash == token.tokenHash then
    .conflict "service token hash already exists" none
  else uniqueViolation

def insert (token : ServiceToken) : Tx Unit := insertRow token (insertViolation token) danglingReference

/-- Idempotent: an already-revoked token keeps its original `revokedAt`. -/
def revoke (id : Uuid) (revokedAt : Instant) : Tx Unit := do
  let found : Option ServiceToken ← selectKey id
  let _ ← Program.require found (.notFound "service token")
  modifyWhere (fun r : ServiceToken => r.id == id && r.revokedAt.isNone)
    fun r => { r with revokedAt := some revokedAt }

/-- A dead credential is not revived; unknown and revoked ids have different errors. -/
def rotateHash (id : Uuid) (tokenHash : String) : Tx ServiceToken := do
  let found : Option ServiceToken ← selectKey id
  let row ← Program.require found (.notFound "service token")
  Program.ensure row.revokedAt.isNone (.conflict "service token is revoked" none)
  modifyRow id (fun r : ServiceToken => { r with tokenHash }) (.notFound "service token")
    uniqueViolation danglingReference
  return { row with tokenHash }

end AiKanban.Db.ServiceTokenRepository

namespace AiKanban.Server

open Domain Db Policy Services Transactions

/-- A raw token with the hash that is all that is ever stored. -/
structure MintedToken where
  rawToken : String
  tokenHash : String
  deriving DecidableEq

namespace ServiceTokenService

/-- The requested role must be one the active policy defines. -/
def create (boardId : Uuid) (actor : Actor) (raw : CreateServiceTokenInput) (minted : MintedToken) :
    Tx (ServiceToken × MintedToken) := do
  let input ← .ofExcept raw.parse
  let token : ServiceToken := {
    id := ← newId, name := input.name, tokenHash := minted.tokenHash, role := input.role
    scope := input.scope, createdBy := actor.id, createdAt := ← clockNow, lastUsedAt := none
    revokedAt := none }
  let policy ← loadActivePolicy boardId
  .ofExcept (ensurePermission actor .manageTokens policy)
  Program.ensure (UserAdminService.roleExists policy input.role)
    (UserAdminService.unknownRole input.role)
  ServiceTokenRepository.insert token
  return (token, minted)

/-- Swaps the stored hash; name, role and scope stay. -/
def rotate (boardId : Uuid) (actor : Actor) (tokenId : Uuid) (minted : MintedToken) :
    Tx (ServiceToken × MintedToken) := do
  ensureGranted actor .manageTokens boardId
  let token ← ServiceTokenRepository.rotateHash tokenId minted.tokenHash
  return (token, minted)

def revoke (boardId : Uuid) (actor : Actor) (tokenId : Uuid) : Tx Unit := do
  let nowIso ← clockNow
  ensureGranted actor .manageTokens boardId
  ServiceTokenRepository.revoke tokenId nowIso

end ServiceTokenService
end AiKanban.Server
