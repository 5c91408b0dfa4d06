import AiKanban.Server.SetupService

/-!
# OAuth requests, audiences and redirect URIs

The requests of the authorization server, its protocol errors, the one normaliser of audiences,
and the rule by which a redirect URI matches a registered one.
-/
namespace AiKanban.Domain

/-- What the authorization server takes from outside: digests, and the `URL` class. -/
class OAuthPlatform extends AuthPlatform where
  /-- `base64url(sha256(text))` -/
  sha256base64url : String → String
  Url : Type
  /-- `new URL(text)`, which may throw. -/
  parseUrl : String → Option Url
  href : Url → String
  protocol : Url → String
  hostname : Url → String
  pathname : Url → String
  /-- `url.hash = ''` -/
  withoutHash : Url → Url
  /-- `url.pathname = text` -/
  withPathname : Url → String → Url
  /-- `url.port = ''` -/
  withoutPort : Url → Url

inductive OAuthErrorCode where
  | accessDenied | invalidRequest | invalidClient | invalidGrant | invalidRedirectUri
  | unsupportedGrantType
  deriving DecidableEq

structure OAuthError where
  code : OAuthErrorCode
  description : String
  deriving DecidableEq

/-- A protocol error, or an error of the schemas and of the database. -/
inductive OAuthFailure where
  | protocol (error : OAuthError)
  | domain (error : DomainError)
  deriving DecidableEq

structure OAuthClient where
  id : String
  name : String
  redirectUris : List String
  createdAt : Instant
  deriving DecidableEq

structure AuthorizeRequest where
  clientId : String
  redirectUri : String
  resource : String
  scope : TokenScope
  codeChallenge : String
  codeChallengeMethod : String
  deriving DecidableEq

/-- `z.string().min(1)` -/
def nonEmpty (path : List String) (s : String) : Except DomainError Unit := check (s != "") path

def AuthorizeRequest.parse (raw : AuthorizeRequest) : Except DomainError AuthorizeRequest := do
  nonEmpty ["clientId"] raw.clientId
  nonEmpty ["redirectUri"] raw.redirectUri
  nonEmpty ["resource"] raw.resource
  nonEmpty ["codeChallenge"] raw.codeChallenge
  check (raw.codeChallengeMethod == "S256") ["codeChallengeMethod"]
  return raw

structure TokenCodeGrant where
  code : String
  codeVerifier : String
  clientId : String
  redirectUri : String
  resource : Option String
  deriving DecidableEq

def TokenCodeGrant.parse (raw : TokenCodeGrant) : Except DomainError TokenCodeGrant := do
  nonEmpty ["code"] raw.code
  nonEmpty ["codeVerifier"] raw.codeVerifier
  nonEmpty ["clientId"] raw.clientId
  nonEmpty ["redirectUri"] raw.redirectUri
  check (raw.resource.all (· != "")) ["resource"]
  return raw

/-- The audience is bound from the stored row, so a resource is optional. -/
structure TokenRefreshGrant where
  refreshToken : String
  clientId : String
  resource : Option String
  deriving DecidableEq

def TokenRefreshGrant.parse (raw : TokenRefreshGrant) : Except DomainError TokenRefreshGrant := do
  nonEmpty ["refreshToken"] raw.refreshToken
  nonEmpty ["clientId"] raw.clientId
  check (raw.resource.all (· != "")) ["resource"]
  return raw

/-- Either grant; the type says which. -/
inductive TokenRequest where
  | authorizationCode (grant : TokenCodeGrant)
  | refreshToken (grant : TokenRefreshGrant)
  deriving DecidableEq

structure TokenResponse where
  accessToken : String
  refreshToken : String
  expiresIn : ℤ
  scope : TokenScope
  deriving DecidableEq

structure RegisterClientRequest where
  redirectUris : List String
  clientName : Option String
  deriving DecidableEq

def RegisterClientRequest.parse (raw : RegisterClientRequest) :
    Except DomainError RegisterClientRequest := do
  check (1 ≤ raw.redirectUris.length && raw.redirectUris.length ≤ 8) ["redirect_uris"]
  check (raw.redirectUris.all fun uri => 1 ≤ utf16Length uri && utf16Length uri ≤ 2048)
    ["redirect_uris"]
  check (raw.clientName.all fun name => 1 ≤ utf16Length name && utf16Length name ≤ 255)
    ["client_name"]
  return raw

section platform

variable [OAuthPlatform]

open OAuthPlatform

/-- No fragment, and no slash at the end of a path but the root. -/
def canonicalUrl (url : Url) : Url :=
  let url := withoutHash url
  if pathname url != "/" && (pathname url).endsWith "/" then
    withPathname url (String.ofList (pathname url).toList.dropLast)
  else url

/-- The one normaliser of audiences; what is no URL stays as it is. -/
def canonicalizeResource (uri : String) : String :=
  match parseUrl uri with
  | none => uri
  | some url => href (canonicalUrl url)

/-- The audience that every access token is minted for. -/
def canonicalMcpUri (publicBaseUrl : String) : String :=
  canonicalizeResource
    ((if publicBaseUrl.endsWith "/" then String.ofList publicBaseUrl.toList.dropLast
      else publicBaseUrl) ++ "/mcp")

def loopbackHosts : List String := ["127.0.0.1", "localhost", "[::1]", "::1"]

def isLoopbackRedirectUri (uri : String) : Bool :=
  (parseUrl uri).any fun url => protocol url == "http:" && loopbackHosts.contains (hostname url)

/-- The port of a loopback callback differs from run to run. -/
def loopbackKey (url : Url) : String := href (withoutPort url)

def redirectUriMatches (registered candidate : String) : Bool :=
  registered == candidate ||
    isLoopbackRedirectUri registered && isLoopbackRedirectUri candidate &&
      (parseUrl registered).map loopbackKey == (parseUrl candidate).map loopbackKey

def findMatchingRedirectUri (registered : List String) (candidate : String) : Option String :=
  registered.find? fun uri => redirectUriMatches uri candidate

def isRegistrableRedirectUri (uri : String) : Bool :=
  isLoopbackRedirectUri uri || (parseUrl uri).any fun url => protocol url == "https:"

/-- Any other method is a downgrade. -/
def assertS256 (method : Option String) : Except OAuthError Unit :=
  if method = some "S256" then .ok ()
  else .error ⟨.invalidRequest, "unsupported code_challenge_method: " ++ method.getD "none"⟩

def verifyPkce (codeVerifier codeChallenge : String) : Bool :=
  sha256base64url codeVerifier == codeChallenge

/-- A secret with the hash that is all that is ever stored. -/
structure Secret where
  raw : String
  hash : String
  deriving DecidableEq

def accessTokenPrefix : String := "rka_"
def refreshTokenPrefix : String := "rkr_"

/-- The random part has just been drawn. -/
def mintSecret (start random : String) : Secret := ⟨start ++ random, AuthPlatform.sha256 (start ++ random)⟩

end platform

structure OAuthConfig where
  issuer : String
  canonicalMcpUri : String
  authCodeTtlMs : ℤ
  accessTokenTtlMs : ℤ
  refreshTokenTtlMs : ℤ
  deriving DecidableEq

/-- The parts of an address. -/
structure SampleUrl where
  protocol : String
  hostname : String
  port : String := ""
  pathname : String
  hash : String := ""
  deriving DecidableEq

/-- The addresses of a board and of an agent, and digests that can be told apart. -/
@[reducible] def sampleOAuthPlatform : OAuthPlatform where
  toAuthPlatform := sampleAuthPlatform
  sha256base64url text := "digest:" ++ text
  Url := SampleUrl
  parseUrl text :=
    if text = "https://board.example/mcp" then
      some { protocol := "https:", hostname := "board.example", pathname := "/mcp" }
    else if text = "https://agent.example/callback" then
      some { protocol := "https:", hostname := "agent.example", pathname := "/callback" }
    else none
  href url := url.protocol ++ "//" ++ url.hostname ++ url.port ++ url.pathname ++ url.hash
  protocol := SampleUrl.protocol
  hostname := SampleUrl.hostname
  pathname := SampleUrl.pathname
  withoutHash url := { url with hash := "" }
  withPathname url pathname := { url with pathname }
  withoutPort url := { url with port := "" }

def sampleOAuthConfig : OAuthConfig where
  issuer := "https://board.example"
  canonicalMcpUri := "https://board.example/mcp"
  authCodeTtlMs := 60000
  accessTokenTtlMs := 3600000
  refreshTokenTtlMs := 86400000

example :
    @canonicalMcpUri sampleOAuthPlatform "https://board.example/" = "https://board.example/mcp" := by
  decide +kernel

end AiKanban.Domain
