import AiKanban.Server.OAuth
import AiKanban.Server.Authentication

/-!
# The authorization server

Clients register, users authorize them, codes and refresh tokens are exchanged for access tokens,
and the resource server resolves an access token to the user it acts for.
-/
namespace AiKanban

namespace Db

open Domain Relational Transactions

abbrev OAuthTx := Program Store Write OAuthFailure Tick

namespace OAuthTx

def clockNow : OAuthTx Instant := do return (← .input).now
def newId : OAuthTx Uuid := do return (← .input).id

/-- A schema has its say before anything else. -/
def checked {α : Type} (value : Except DomainError α) : OAuthTx α := .ofExcept (value.mapError .domain)

def protocol {α : Type} (value : Except OAuthError α) : OAuthTx α := .ofExcept (value.mapError .protocol)

end OAuthTx

open OAuthTx

section repositories

variable {ρ κ : Type} [Row ρ κ] [DecidableEq κ] [HasTable Store Write ρ]

def insertOAuth (row : ρ) : OAuthTx Unit :=
  insertRow row (fun _ => .domain uniqueViolation) (.domain danglingReference)

/-- `DELETE … WHERE key = k RETURNING *` -/
def deleteReturning (k : κ) : OAuthTx (Option ρ) :=
  .stmt
    (fun v => .ok (((HasTable.table v : Table ρ).find? k).toList.map fun row =>
      HasTable.wrap Store (.delete row)))
    fun v => .pure ((HasTable.table v).find? k)

/-- `UPDATE … SET (what f changes) WHERE key = k AND p`; whether a row has changed. -/
def updateGuarded (k : κ) (p : ρ → Bool) (f : ρ → ρ) : OAuthTx Bool :=
  .stmt
    (fun v => .ok (((HasTable.table v : Table ρ).find? k).toList.filter p |>.map fun row =>
      HasTable.wrap Store (.update row (f row))))
    fun v => .pure (((HasTable.table v : Table ρ).find? k).any p)

end repositories

def findByIdForUpdate (userId : Uuid) : OAuthTx (Option UserCredentials) := selectKey userId

namespace OAuthAuthorizationCodeRepository

def findByHash (codeHash : String) : OAuthTx (Option OAuthAuthorizationCode) := selectKey codeHash

def consume (codeHash : String) : OAuthTx (Option OAuthAuthorizationCode) := deleteReturning codeHash

end OAuthAuthorizationCodeRepository

namespace OAuthAccessTokenRepository

def findByHash (tokenHash : String) : OAuthTx (Option OAuthAccessToken) :=
  .read fun v => v.oauthAccessTokens.rows.find? fun r => r.tokenHash == tokenHash

def updateLastUsed (id : Uuid) (lastUsedAt : Instant) : OAuthTx Unit :=
  modifyWhere (fun r : OAuthAccessToken => r.id == id) fun r => { r with lastUsedAt := some lastUsedAt }

/-- A token that is revoked keeps its time. -/
def revokeWhere (p : OAuthAccessToken → Bool) : OAuthTx Unit := do
  let now ← OAuthTx.clockNow
  modifyWhere (fun r : OAuthAccessToken => p r && r.revokedAt.isNone)
    fun r => { r with revokedAt := some now }

def revoke (id : Uuid) : OAuthTx Unit := revokeWhere fun r => r.id == id

def revokeForUser (userId : Uuid) : OAuthTx Unit := revokeWhere fun r => r.userId == userId

def revokeForClient (userId : Uuid) (clientId : String) : OAuthTx Unit :=
  revokeWhere fun r => r.userId == userId && r.clientId == clientId

end OAuthAccessTokenRepository

namespace OAuthRefreshTokenRepository

def findByHash (tokenHash : String) : OAuthTx (Option OAuthRefreshToken) :=
  .read fun v => v.oauthRefreshTokens.rows.find? fun r => r.tokenHash == tokenHash

/-- Only the first caller claims the token. -/
def markUsed (id : Uuid) : OAuthTx Bool := do
  let now ← OAuthTx.clockNow
  updateGuarded id (fun r : OAuthRefreshToken => r.usedAt.isNone) fun r => { r with usedAt := some now }

def revokeFamily (familyId : Uuid) : OAuthTx Unit := do
  let now ← OAuthTx.clockNow
  modifyWhere (fun r : OAuthRefreshToken => r.familyId == familyId && r.revokedAt.isNone)
    fun r => { r with revokedAt := some now }

end OAuthRefreshTokenRepository

end Db

namespace Server

open Domain Db Transactions OAuthTx

/-- An account that may delegate. -/
def isAvailable (credentials : Option UserCredentials) : Bool :=
  credentials.any fun row => row.user.isActive && !row.user.mustChangePassword

namespace RegistrationService

variable [OAuthPlatform]

/-- Open registration: the client and the registry with it. -/
def register (clients : List OAuthClient) (raw : RegisterClientRequest) (clientId : String)
    (now : Instant) : Except OAuthFailure (OAuthClient × List OAuthClient) := do
  let input ← raw.parse.mapError .domain
  match input.redirectUris.find? fun uri => !isRegistrableRedirectUri uri with
  | some uri =>
      throw (.protocol ⟨.invalidRedirectUri, "redirect_uri must be https or loopback: " ++ uri⟩)
  | none => pure ()
  if clients.any fun client => client.id == clientId then throw (.domain uniqueViolation)
  let client : OAuthClient := {
    id := clientId, name := input.clientName.getD "OAuth client"
    redirectUris := input.redirectUris, createdAt := now }
  return (client, clients ++ [client])

end RegistrationService

namespace AuthorizationService

variable [OAuthPlatform]

/-- The code of a user who is signed in and has approved. -/
def authorize (config : OAuthConfig) (clients : List OAuthClient) (userId : Uuid)
    (raw : AuthorizeRequest) (now : Instant) (random : String) : OAuthTx String := do
  let request ← checked raw.parse
  protocol (assertS256 (some request.codeChallengeMethod))
  let resource := canonicalizeResource request.resource
  Program.ensure (resource == config.canonicalMcpUri)
    (.protocol ⟨.invalidRequest, "unsupported resource (audience)"⟩)
  let secret := mintSecret "" random
  let credentials ← findByIdForUpdate userId
  Program.ensure (isAvailable credentials)
    (.protocol ⟨.accessDenied, "account must complete password setup"⟩)
  let client ← Program.require (clients.find? fun client => client.id == request.clientId)
    (.protocol ⟨.invalidClient, "unknown client"⟩)
  Program.ensure (findMatchingRedirectUri client.redirectUris request.redirectUri).isSome
    (.protocol ⟨.invalidRedirectUri, "redirect_uri not registered for this client"⟩)
  insertOAuth ({
    codeHash := secret.hash, clientId := request.clientId, userId
    redirectUri := request.redirectUri, resource, scope := request.scope
    codeChallenge := request.codeChallenge
    expiresAt := now + config.authCodeTtlMs } : OAuthAuthorizationCode)
  return secret.raw

end AuthorizationService

/-- Whom the tokens of an issue are for, and their family. -/
structure Issuance where
  userId : Uuid
  clientId : String
  scope : TokenScope
  resource : String
  familyId : Uuid
  now : Instant
  deriving DecidableEq

/-- What is drawn for the tokens of a request. -/
structure TokenRandoms where
  access : String
  refresh : String
  deriving DecidableEq

namespace TokenService

def unavailableAccount : OAuthError :=
  ⟨.invalidGrant, "account credentials changed or account is unavailable"⟩

def reuseDetected : OAuthError := ⟨.invalidGrant, "refresh token reuse detected"⟩

/-- Revocation of a token by the client it was issued to; any other token is no error. -/
def revoke [OAuthPlatform] (rawToken clientId : String) : OAuthTx Unit := do
  let tokenHash := AuthPlatform.sha256 rawToken
  match ← OAuthAccessTokenRepository.findByHash tokenHash with
  | some access =>
      if access.clientId = clientId then OAuthAccessTokenRepository.revoke access.id
      else revokeRefresh tokenHash
  | none => revokeRefresh tokenHash
where
  /-- A repeated revocation must not kill a newer authorization for this client. -/
  revokeRefresh (tokenHash : String) : OAuthTx Unit := do
    match ← OAuthRefreshTokenRepository.findByHash tokenHash with
    | none => pure ()
    | some refresh =>
        if refresh.clientId ≠ clientId then pure ()
        else do
          let _ ← findByIdForUpdate refresh.userId
          match ← OAuthRefreshTokenRepository.findByHash tokenHash with
          | none => pure ()
          | some current =>
              if current.revokedAt.isSome then pure ()
              else do
                let now ← OAuthTx.clockNow
                if current.expiresAt ≤ now then pure ()
                else do
                  OAuthRefreshTokenRepository.revokeFamily refresh.familyId
                  OAuthAccessTokenRepository.revokeForClient refresh.userId clientId

variable [OAuthPlatform] (config : OAuthConfig)

/-- An access token and a refresh token of the family. -/
def issueTokens (args : Issuance) (randoms : TokenRandoms) : OAuthTx TokenResponse := do
  let accessSecret := mintSecret accessTokenPrefix randoms.access
  let refreshSecret := mintSecret refreshTokenPrefix randoms.refresh
  let accessToken : OAuthAccessToken := {
    id := ← OAuthTx.newId, tokenHash := accessSecret.hash, userId := args.userId
    clientId := args.clientId, scope := args.scope, resource := args.resource
    expiresAt := args.now + config.accessTokenTtlMs, revokedAt := none, lastUsedAt := none
    createdAt := args.now }
  let refreshToken : OAuthRefreshToken := {
    id := ← OAuthTx.newId, tokenHash := refreshSecret.hash, familyId := args.familyId
    userId := args.userId, clientId := args.clientId, scope := args.scope
    resource := args.resource, expiresAt := args.now + config.refreshTokenTtlMs, usedAt := none
    revokedAt := none, createdAt := args.now }
  insertOAuth accessToken
  insertOAuth refreshToken
  return ⟨accessSecret.raw, refreshSecret.raw, config.accessTokenTtlMs / 1000, args.scope⟩

/-- The error of the account is a value here; each grant says whether it undoes the unit of work. -/
def issue (args : Issuance) (randoms : TokenRandoms) :
    OAuthTx (Except OAuthError TokenResponse) := do
  let credentials ← findByIdForUpdate args.userId
  if isAvailable credentials then .ok <$> issueTokens config args randoms
  else return .error unavailableAccount

/-- Why a code that was there cannot be exchanged. -/
def codeViolation (grant : TokenCodeGrant) (code : OAuthAuthorizationCode) (now : Instant) :
    Option OAuthError :=
  if code.expiresAt ≤ now then some ⟨.invalidGrant, "authorization code expired"⟩
  else if code.clientId ≠ grant.clientId ∨ code.redirectUri ≠ grant.redirectUri then
    some ⟨.invalidGrant, "authorization code was issued to a different client"⟩
  else if verifyPkce grant.codeVerifier code.codeChallenge then none
  else some ⟨.invalidGrant, "PKCE verification failed"⟩

/-- A protocol error is returned, not thrown: the consumption of the code must commit. -/
def authorizationCodeGrant (raw : TokenCodeGrant) (now : Instant) (randoms : TokenRandoms) :
    OAuthTx (Except OAuthError TokenResponse) := do
  let grant ← checked raw.parse
  let codeHash := AuthPlatform.sha256 grant.code
  let pending ← OAuthAuthorizationCodeRepository.findByHash codeHash
  match pending with
  | some row => discard (findByIdForUpdate row.userId)
  | none => pure ()
  match ← OAuthAuthorizationCodeRepository.consume codeHash with
  | none => return .error ⟨.invalidGrant, "invalid or used authorization code"⟩
  | some code =>
      match codeViolation grant code now with
      | some error => return .error error
      | none => do
          let familyId ← OAuthTx.newId
          issue config ⟨code.userId, code.clientId, code.scope, code.resource, familyId, now⟩ randoms

/-- A token that was spent before: it is a replay. The whole family goes, and every access token
of the user. -/
def replayed (row : OAuthRefreshToken) : OAuthTx (Except OAuthError TokenResponse) := do
  OAuthRefreshTokenRepository.revokeFamily row.familyId
  OAuthAccessTokenRepository.revokeForUser row.userId
  return .error reuseDetected

/-- Only the reuse is returned; every other error undoes the unit of work. -/
def refreshTokenGrant (raw : TokenRefreshGrant) (now : Instant) (randoms : TokenRandoms) :
    OAuthTx (Except OAuthError TokenResponse) := do
  let grant ← checked raw.parse
  let tokenHash := AuthPlatform.sha256 grant.refreshToken
  let found ← OAuthRefreshTokenRepository.findByHash tokenHash
  let first ← Program.require found (.protocol ⟨.invalidGrant, "invalid refresh token"⟩)
  let _ ← findByIdForUpdate first.userId
  let again ← OAuthRefreshTokenRepository.findByHash tokenHash
  let row ← Program.require again (.protocol ⟨.invalidGrant, "invalid refresh token"⟩)
  Program.ensure (row.revokedAt.isNone && now < row.expiresAt)
    (.protocol ⟨.invalidGrant, "expired or revoked refresh token"⟩)
  Program.ensure (row.clientId == grant.clientId)
    (.protocol ⟨.invalidGrant, "refresh token was issued to a different client"⟩)
  if ← OAuthRefreshTokenRepository.markUsed row.id then do
    let result ← issue config
      ⟨row.userId, row.clientId, row.scope, canonicalizeResource row.resource, row.familyId, now⟩
      randoms
    .ok <$> protocol result
  else replayed row

def token (request : TokenRequest) (now : Instant) (randoms : TokenRandoms) :
    OAuthTx (Except OAuthError TokenResponse) :=
  match request with
  | .authorizationCode grant => authorizationCodeGrant config grant now randoms
  | .refreshToken grant => refreshTokenGrant config grant now randoms

end TokenService

/-- The error that a unit of work returned is thrown once it has committed. -/
def thrownAfter {α : Type} (outcome : Except OAuthFailure (Except OAuthError α)) :
    Except OAuthFailure α :=
  outcome.bind fun result => result.mapError .protocol

namespace McpAuth

/-- A minute. -/
def lastUsedThrottleMs : ℤ := 60000

def throttleElapsed (lastUsedAt : Option Instant) (now : Instant) : Bool :=
  lastUsedAt.all fun last => lastUsedThrottleMs ≤ now - last

/-- The token with its user, on one snapshot. -/
def resolve (tokenHash : String) : OAuthTx (Option (OAuthAccessToken × Option User)) := do
  match ← OAuthAccessTokenRepository.findByHash tokenHash with
  | none => return none
  | some found => .read fun v => some (found, (v.users.find? found.userId).map (·.user))

variable [OAuthPlatform] (config : OAuthConfig) (clients : List OAuthClient)

/-- What the token of a user stands against. -/
def accepts (token : OAuthAccessToken) (user : User) (now : Instant) : Bool :=
  user.isActive && !user.mustChangePassword && token.revokedAt.isNone && now < token.expiresAt &&
    canonicalizeResource token.resource == config.canonicalMcpUri

/-- The agent acts as the user, within the scope of the token. -/
def agent (token : OAuthAccessToken) (user : User) : Actor where
  kind := .agent
  id := token.userId
  role := user.role
  scope := some token.scope
  client := some ⟨token.clientId, ((clients.find? fun c => c.id == token.clientId).map (·.name)).getD
    token.clientId⟩

/-- Every rejection is the same. -/
def authenticateAccessToken (rawToken : String) (now : Instant) (w : World Store Tick) :
    Option Actor × World Store Tick :=
  match transact (resolve (AuthPlatform.sha256 rawToken)) w with
  | (.ok (some (token, some user)), w') =>
      if accepts config token user now then
        (some (agent clients token user),
          if throttleElapsed token.lastUsedAt now then
            (transact (OAuthAccessTokenRepository.updateLastUsed token.id now) w').2
          else w')
      else (none, w')
  | (_, w') => (none, w')

end McpAuth

end Server
end AiKanban
