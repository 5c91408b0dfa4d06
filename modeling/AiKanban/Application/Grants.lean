import AiKanban.Application.Operations
import AiKanban.Db.Seed
import AiKanban.Server.AuthorizationServer
import AiKanban.Server.CredentialChange

/-!
# The authorization server among the other operations

What reaches the authorization server and the resource server, every operation of the
application, and the other changes of credentials, one after the other.
-/
namespace AiKanban.Application

open Domain Db Server Services Transactions

/-- The registered clients and the database. -/
structure GrantState where
  clients : List OAuthClient
  world : World Store Tick

inductive GrantEvent where
  | register (raw : RegisterClientRequest) (clientId : String) (now : Instant)
  | authorize (userId : Uuid) (raw : AuthorizeRequest) (now : Instant) (random : String)
  | token (request : TokenRequest) (now : Instant) (randoms : TokenRandoms)
  | revoke (rawToken clientId : String)
  | authenticate (rawToken : String) (now : Instant)
  | replacePassword (userId : Uuid) (checkedHash newHash keepHash : String)
  | createAdmin (systemUserId : Uuid) (email : String) (force : Bool) (temp : TempPassword)
  | operation (op : Operation)

namespace GrantState

variable [OAuthPlatform] (config : OAuthConfig) (st : GrantState)

def after {α : Type} (outcome : α × World Store Tick) : α × GrantState :=
  (outcome.1, { st with world := outcome.2 })

def register (raw : RegisterClientRequest) (clientId : String) (now : Instant) :
    Except OAuthFailure OAuthClient × GrantState :=
  match RegistrationService.register st.clients raw clientId now with
  | .error e => (.error e, st)
  | .ok (client, clients) => (.ok client, { st with clients })

def authorize (userId : Uuid) (raw : AuthorizeRequest) (now : Instant) (random : String) :
    Except OAuthFailure String × GrantState :=
  st.after (transact (AuthorizationService.authorize config st.clients userId raw now random) st.world)

/-- The unit of work, and then the error it returned. -/
def token (request : TokenRequest) (now : Instant) (randoms : TokenRandoms) :
    Except OAuthFailure TokenResponse × GrantState :=
  let outcome := st.after (transact (TokenService.token config request now randoms) st.world)
  (thrownAfter outcome.1, outcome.2)

def revoke (rawToken clientId : String) : Except OAuthFailure Unit × GrantState :=
  st.after (transact (TokenService.revoke rawToken clientId) st.world)

def authenticate (rawToken : String) (now : Instant) : Option Actor × GrantState :=
  st.after (McpAuth.authenticateAccessToken config st.clients rawToken now st.world)

def step : GrantEvent → GrantState
  | .register raw clientId now => (st.register raw clientId now).2
  | .authorize userId raw now random => (st.authorize config userId raw now random).2
  | .token request now randoms => (st.token config request now randoms).2
  | .revoke rawToken clientId => (st.revoke rawToken clientId).2
  | .authenticate rawToken now => (st.authenticate config rawToken now).2
  | .replacePassword userId checkedHash newHash keepHash =>
      { st with world :=
          (transact (AuthService.replacePassword userId checkedHash newHash keepHash) st.world).2 }
  | .createAdmin systemUserId email force temp =>
      { st with world := (CreateAdmin.createAdminUser systemUserId email force temp st.world).2 }
  | .operation op => { st with world := Application.step st.world op }

/-- No client has registered, and the database has just been seeded. -/
def start (inputs : ℕ → Tick) : GrantState := ⟨[], freshlySeeded inputs⟩

end GrantState

def sampleAuthorization : AuthorizeRequest where
  clientId := "agent"
  redirectUri := "https://agent.example/callback"
  resource := "https://board.example/mcp"
  scope := .readWrite
  codeChallenge := "digest:verifier"
  codeChallengeMethod := "S256"

/-- A client registers, the automation user authorizes it, and the code is exchanged. -/
def sampleGrants : List GrantEvent :=
  [.register ⟨["https://agent.example/callback"], none⟩ "agent" 5000,
    .authorize 102 sampleAuthorization 6000 "code",
    .token (.authorizationCode ⟨"code", "verifier", "agent", "https://agent.example/callback", none⟩)
      7000 ⟨"a1", "r1"⟩]

/-- And then the refresh token is rotated. -/
def sampleRotation : List GrantEvent :=
  sampleGrants ++ [.token (.refreshToken ⟨"rkr_r1", "agent", none⟩) 8000 ⟨"a2", "r2"⟩]

end AiKanban.Application
