import AiKanban.Effects.Grants

/-!
# What is granted, and to whom

The three units of work that grant something, and the effect of every event on the grants.
-/
namespace AiKanban.Effects.Grants

open Domain Db Relational Server Services Transactions
open Application

variable {w w' : World Store Tick}

section rows

variable {ρ κ : Type} [Row ρ κ] [DecidableEq κ] [HasTable Store Write ρ]

theorem runs_deleteReturning_iff {k : κ} {r : Option ρ} :
    Runs (deleteReturning k) w r w' ↔
      r = (HasTable.table w.store).find? k ∧
        w' = w.withStore (replay w.store (((HasTable.table w.store : Table ρ).find? k).toList.map
          fun row => HasTable.wrap Store (.delete row))) := by
  simp [Runs, deleteReturning, exec, eq_comm]

theorem runs_updateGuarded_iff {k : κ} {p : ρ → Bool} {f : ρ → ρ} {changed : Bool} :
    Runs (updateGuarded k p f) w changed w' ↔
      changed = ((HasTable.table w.store : Table ρ).find? k).any p ∧
        w' = w.withStore (replay w.store
          ((((HasTable.table w.store : Table ρ).find? k).toList.filter p).map fun row =>
            HasTable.wrap Store (.update row (f row)))) := by
  simp [Runs, updateGuarded, exec, eq_comm]

end rows

section revocations

theorem wanes_revoke [OAuthPlatform] (rawToken clientId : String) :
    Preserves Wanes (TokenService.revoke rawToken clientId) := by
  have hread : ∀ {α : Type} (p : OAuthTx α), p.ReadsOnly → Preserves Wanes p :=
    fun p hp => .of_readsOnly hp
  have hdone : Preserves Wanes (pure () : OAuthTx Unit) := hread _ (Program.readsOnly_pure ())
  have hrefresh : ∀ tokenHash, Preserves Wanes (TokenService.revoke.revokeRefresh clientId tokenHash) := by
    intro tokenHash
    refine (hread _ (Program.readsOnly_read _)).bind fun found => ?_
    rcases found with _ | refresh
    · exact hdone
    dsimp only
    split_ifs
    · exact hdone
    refine (hread _ (Program.readsOnly_read _)).bind fun _ => ?_
    refine (hread _ (Program.readsOnly_read _)).bind fun current => ?_
    rcases current with _ | current
    · exact hdone
    dsimp only
    split_ifs
    · exact hdone
    refine wanes_draw.bind fun now => ?_
    split_ifs
    · exact hdone
    · exact (wanes_revokeFamily _).bind fun _ => wanes_revokeWhere _
  refine (hread _ (Program.readsOnly_read _)).bind fun access => ?_
  rcases access with _ | access
  · exact hrefresh _
  · dsimp only
    split_ifs
    · exact wanes_revokeWhere _
    · exact hrefresh _

theorem runs_revokeFamily {familyId : Uuid} {u : Unit}
    (h : Runs (OAuthRefreshTokenRepository.revokeFamily familyId) w u w') :
    ∀ r ∈ w'.store.oauthRefreshTokens.rows, r.familyId = familyId → r.revokedAt.isSome := by
  obtain ⟨now, w₁, -, hrevoke⟩ := runs_bind_iff.mp h
  obtain ⟨-, -, hrows⟩ := rows_revokeRefresh (p := fun family _ => family == familyId) hrevoke
  intro r hr hfamily
  rw [hrows] at hr
  obtain ⟨before, -, rfl⟩ := List.mem_map.mp hr
  have hsame : before.familyId = familyId := hfamily
  simp [stampRow, hsame]

/-- `UPDATE oauth_access_tokens SET revoked_at = now WHERE p AND revoked_at IS NULL` -/
theorem runs_revokeAccess {ε : Type} {p : OAuthAccessToken → Bool} {now : Instant} {u : Unit}
    (h : Runs (modifyWhere (fun r : OAuthAccessToken => p r && r.revokedAt.isNone)
      (fun r => { r with revokedAt := some now }) : Program Store Write ε Tick Unit) w u w') :
    ∀ r ∈ w'.store.oauthAccessTokens.rows, p r → r.revokedAt.isSome := by
  obtain rfl := runs_modifyWhere_iff.mp h
  intro r hr hpr
  have hrows := Table.rows_foldl_updateWhere
    (f := fun r : OAuthAccessToken => { r with revokedAt := some now })
    (fun _ => rfl) (fun _ _ => rfl) w.store.oauthAccessTokens fun r => p r && r.revokedAt.isNone
  obtain ⟨before, -, rfl⟩ := List.mem_map.mp (hrows ▸ hr)
  split_ifs at hpr ⊢ with hcase
  · rfl
  · rw [Option.isSome_iff_ne_none]
    intro hnone
    exact hcase (by simp [hpr, hnone])

theorem runs_revokeWhere {p : OAuthAccessToken → Bool} {u : Unit}
    (h : Runs (OAuthAccessTokenRepository.revokeWhere p) w u w') :
    ∀ r ∈ w'.store.oauthAccessTokens.rows, p r → r.revokedAt.isSome := by
  obtain ⟨now, w₁, -, hrevoke⟩ := runs_bind_iff.mp h
  exact runs_revokeAccess hrevoke

/-- The family is revoked and so is every access token of the user, and the error is returned. -/
theorem runs_replayed {row : OAuthRefreshToken} {r : Except OAuthError TokenResponse}
    (h : Runs (TokenService.replayed row) w r w') :
    r = .error TokenService.reuseDetected ∧ Wanes w.store w'.store ∧
      (∀ r ∈ w'.store.oauthRefreshTokens.rows, r.familyId = row.familyId → r.revokedAt.isSome) ∧
      ∀ r ∈ w'.store.oauthAccessTokens.rows, r.userId = row.userId → r.revokedAt.isSome := by
  obtain ⟨_, w₁, hfamily, h⟩ := runs_bind_iff.mp h
  obtain ⟨_, w₂, haccess, h⟩ := runs_bind_iff.mp h
  obtain ⟨rfl, rfl⟩ := runs_pure_iff.mp h
  have hfirst := wanes_revokeFamily _ _ _ _ hfamily
  have hsecond := wanes_revokeWhere _ _ _ _ haccess
  refine ⟨rfl, hfirst.trans hsecond, ?_, fun r hr huser => ?_⟩
  · obtain ⟨stamp, hrows⟩ := hsecond.refresh
    intro r hr hsame
    rw [hrows] at hr
    obtain ⟨before, hbefore, rfl⟩ := List.mem_map.mp hr
    simp [stampRow, runs_revokeFamily hfamily before hbefore hsame, Option.isSome_or]
  · exact runs_revokeWhere haccess r hr (by simpa using huser)

theorem readsOnly_resolve (tokenHash : String) : (McpAuth.resolve tokenHash).ReadsOnly := by
  refine (Program.readsOnly_read _).bind fun found => ?_
  cases found with
  | none => exact Program.readsOnly_pure _
  | some token => exact Program.readsOnly_read _

theorem wanes_authenticate [OAuthPlatform] (config : OAuthConfig) (clients : List OAuthClient)
    (rawToken : String) (now : Instant) :
    Wanes w.store (McpAuth.authenticateAccessToken config clients rawToken now w).2.store := by
  have hresolve := wanes_transact (.of_readsOnly (readsOnly_resolve (AuthPlatform.sha256 rawToken))) w
  rw [McpAuth.authenticateAccessToken]
  rcases ht : transact (McpAuth.resolve (AuthPlatform.sha256 rawToken)) w with ⟨_ | found, w₁⟩
  · rwa [ht] at hresolve
  rw [ht] at hresolve
  rcases found with _ | ⟨token, _ | user⟩
  · exact hresolve
  · exact hresolve
  · dsimp only
    split_ifs
    · exact hresolve.trans (wanes_transact (wanes_updateLastUsed _ _) w₁)
    · exact hresolve
    · exact hresolve

end revocations

section requests

theorem parse_authorize {raw request : AuthorizeRequest} (h : raw.parse = .ok request) :
    request = raw := by
  unfold AuthorizeRequest.parse at h
  iterate 5 obtain ⟨_, -, h⟩ := ok_of_bind h
  cases h
  rfl

theorem parse_tokenCode {raw grant : TokenCodeGrant} (h : raw.parse = .ok grant) : grant = raw := by
  unfold TokenCodeGrant.parse at h
  iterate 5 obtain ⟨_, -, h⟩ := ok_of_bind h
  cases h
  rfl

theorem parse_tokenRefresh {raw grant : TokenRefreshGrant} (h : raw.parse = .ok grant) :
    grant = raw := by
  unfold TokenRefreshGrant.parse at h
  iterate 3 obtain ⟨_, -, h⟩ := ok_of_bind h
  cases h
  rfl

/-- The store once a code is gone. -/
def withoutCode (s : Store) (codeHash : String) : Store :=
  { s with oauthAuthorizationCodes :=
      s.oauthAuthorizationCodes.remove fun code => decide (code.codeHash = codeHash) }

theorem remove_absent {s : Store} {codeHash : String}
    (h : s.oauthAuthorizationCodes.find? codeHash = none) : withoutCode s codeHash = s := by
  have hrows : (s.oauthAuthorizationCodes.remove fun code => decide (code.codeHash = codeHash)) =
      s.oauthAuthorizationCodes := by
    refine Table.ext (List.filter_eq_self.mpr fun code hcode => ?_)
    exact decide_not.symm.trans (decide_eq_true (Table.find?_eq_none_iff.mp h code hcode))
  unfold withoutCode
  rw [hrows]

theorem wanes_withoutCode (s : Store) (codeHash : String) : Wanes s (withoutCode s codeHash) := by
  obtain ⟨-, haccess, hrefresh⟩ := Wanes.refl s
  exact ⟨fun code hcode => (Table.mem_remove.mp hcode).1, haccess, hrefresh⟩

theorem runs_consume {codeHash : String} {r : Option OAuthAuthorizationCode}
    (h : Runs (OAuthAuthorizationCodeRepository.consume codeHash) w r w') :
    r = w.store.oauthAuthorizationCodes.find? codeHash ∧
      w' = w.withStore (withoutCode w.store codeHash) := by
  obtain ⟨rfl, rfl⟩ := runs_deleteReturning_iff.mp h
  refine ⟨rfl, ?_⟩
  have htable : (HasTable.table w.store : Table OAuthAuthorizationCode) =
    w.store.oauthAuthorizationCodes := rfl
  rw [htable]
  cases hfound : w.store.oauthAuthorizationCodes.find? codeHash with
  | none => simp [remove_absent hfound]
  | some code =>
    have hkey : code.codeHash = codeHash := Table.find?_key hfound
    subst hkey
    rfl

def spendRow (row : OAuthRefreshToken) (spentAt : Instant) (r : OAuthRefreshToken) :
    OAuthRefreshToken :=
  if r.id = row.id then { r with usedAt := some spentAt } else r

/-- The store once a refresh token is spent. -/
structure Spent (row : OAuthRefreshToken) (spentAt : Instant) (s s' : Store) : Prop where
  users : s'.users = s.users
  codes : s'.oauthAuthorizationCodes = s.oauthAuthorizationCodes
  access : s'.oauthAccessTokens = s.oauthAccessTokens
  refresh : s'.oauthRefreshTokens.rows = s.oauthRefreshTokens.rows.map (spendRow row spentAt)

/-- The claim of a stored token: it succeeds on an unspent one, and then the token is spent. -/
theorem runs_markUsed {row : OAuthRefreshToken} {claimed : Bool}
    (hrow : row ∈ w.store.oauthRefreshTokens.rows)
    (h : Runs (OAuthRefreshTokenRepository.markUsed row.id) w claimed w') :
    claimed = true ∧ row.usedAt = none ∧ (∃ spentAt, Spent row spentAt w.store w'.store) ∨
      claimed = false ∧ row.usedAt.isSome ∧ w'.store = w.store := by
  obtain ⟨now, w₁, hnow, hupdate⟩ := runs_bind_iff.mp h
  obtain ⟨rfl, rfl⟩ := runs_oauthClockNow_iff.mp hnow
  obtain ⟨rfl, rfl⟩ := runs_updateGuarded_iff.mp hupdate
  have hfound : (HasTable.table w.store : Table OAuthRefreshToken).find? row.id = some row :=
    Table.find?_of_mem hrow
  cases hused : row.usedAt with
  | some spentAt =>
    refine .inr ⟨?_, rfl, ?_⟩
    · simp [hfound, hused]
    · simp [hfound, hused]
  | none =>
    refine .inl ⟨by simp [hfound, hused], rfl, w.peek.now, ?_⟩
    have haccepts : w.store.oauthRefreshTokens.acceptsUpdate
        { row with usedAt := some w.peek.now } = true :=
      Table.acceptsUpdate_of_clash hrow rfl fun _ => rfl
    simp only [World.tick_store, hfound, Option.toList_some, hused, Option.isNone_none,
      List.filter_cons_of_pos, List.filter_nil, List.map_cons, List.map_nil, replay_cons, replay_nil]
    refine ⟨rfl, rfl, rfl, (Table.rows_update haccepts).trans ?_⟩
    refine List.map_congr_left fun r hr => ?_
    unfold spendRow
    by_cases hid : r.id = row.id
    · rw [if_pos hid, Table.eq_of_key hr hrow hid]
      exact if_pos rfl
    · rw [if_neg hid]
      exact if_neg hid

end requests

section platform

variable [OAuthPlatform] {config : OAuthConfig}

/-- The row of a code. -/
def codeRow (config : OAuthConfig) (userId : Uuid) (raw : AuthorizeRequest) (now : Instant)
    (random : String) : OAuthAuthorizationCode where
  codeHash := (mintSecret "" random).hash
  clientId := raw.clientId
  userId
  redirectUri := raw.redirectUri
  resource := canonicalizeResource raw.resource
  scope := raw.scope
  codeChallenge := raw.codeChallenge
  expiresAt := now + config.authCodeTtlMs

def accessRow (config : OAuthConfig) (args : Issuance) (random : String) (id : Uuid) :
    OAuthAccessToken where
  id
  tokenHash := (mintSecret accessTokenPrefix random).hash
  userId := args.userId
  clientId := args.clientId
  scope := args.scope
  resource := args.resource
  expiresAt := args.now + config.accessTokenTtlMs
  revokedAt := none
  lastUsedAt := none
  createdAt := args.now

def refreshRow (config : OAuthConfig) (args : Issuance) (random : String) (id : Uuid) :
    OAuthRefreshToken where
  id
  tokenHash := (mintSecret refreshTokenPrefix random).hash
  familyId := args.familyId
  userId := args.userId
  clientId := args.clientId
  scope := args.scope
  resource := args.resource
  expiresAt := args.now + config.refreshTokenTtlMs
  usedAt := none
  revokedAt := none
  createdAt := args.now

/-- An available user gets an access token and a refresh token. -/
structure Issued (config : OAuthConfig) (args : Issuance) (randoms : TokenRandoms) (s s' : Store) :
    Prop where
  available : isAvailable (s.users.find? args.userId) = true
  codes : s'.oauthAuthorizationCodes = s.oauthAuthorizationCodes
  access : ∃ id, s.oauthAccessTokens.accepts (accessRow config args randoms.access id) = true ∧
    s'.oauthAccessTokens.rows = s.oauthAccessTokens.rows ++ [accessRow config args randoms.access id]
  refresh : ∃ id, s.oauthRefreshTokens.accepts (refreshRow config args randoms.refresh id) = true ∧
    s'.oauthRefreshTokens.rows =
      s.oauthRefreshTokens.rows ++ [refreshRow config args randoms.refresh id]

theorem runs_issueTokens {args : Issuance} {randoms : TokenRandoms} {r : TokenResponse}
    (havailable : isAvailable (w.store.users.find? args.userId) = true)
    (h : Runs (TokenService.issueTokens config args randoms) w r w') :
    Issued config args randoms w.store w'.store := by
  simp only [TokenService.issueTokens, insertOAuth, runs_bind_iff, runs_oauthNewId_iff,
    runs_insertRow_iff, runs_pure_iff] at h
  obtain ⟨_, _, ⟨rfl, rfl⟩, _, _, ⟨rfl, rfl⟩, _, _, ⟨haccess, -, rfl⟩, _, _, ⟨hrefresh, -, rfl⟩, -, rfl⟩ := h
  exact ⟨havailable, rfl, ⟨_, haccess, Table.rows_insert haccess⟩,
    ⟨_, hrefresh, Table.rows_insert hrefresh⟩⟩

/-- Either the account stands against it and nothing is written, or the tokens are stored. -/
theorem runs_issue {args : Issuance} {randoms : TokenRandoms} {r : Except OAuthError TokenResponse}
    (h : Runs (TokenService.issue config args randoms) w r w') :
    r = .error TokenService.unavailableAccount ∧ w' = w ∨
      (∃ response, r = .ok response) ∧ Issued config args randoms w.store w'.store := by
  simp only [TokenService.issue, findByIdForUpdate, runs_bind_iff, runs_selectKey_iff] at h
  obtain ⟨_, _, ⟨rfl, rfl⟩, h⟩ := h
  rcases runs_ite_iff.mp h with ⟨havailable, h⟩ | ⟨-, h⟩
  · obtain ⟨response, hissue, rfl⟩ := runs_map_iff.mp h
    exact .inr ⟨⟨response, rfl⟩, runs_issueTokens havailable hissue⟩
  · exact .inl (runs_pure_iff.mp h)

/-- An available user gives a code to a registered client, for the one audience. -/
structure Authorized (config : OAuthConfig) (clients : List OAuthClient) (userId : Uuid)
    (raw : AuthorizeRequest) (now : Instant) (random : String) (s s' : Store) : Prop where
  client : ∃ client ∈ clients, client.id = raw.clientId ∧
    (findMatchingRedirectUri client.redirectUris raw.redirectUri).isSome
  audience : canonicalizeResource raw.resource = config.canonicalMcpUri
  available : isAvailable (s.users.find? userId) = true
  codes : s'.oauthAuthorizationCodes.rows =
    s.oauthAuthorizationCodes.rows ++ [codeRow config userId raw now random]
  access : s'.oauthAccessTokens = s.oauthAccessTokens
  refresh : s'.oauthRefreshTokens = s.oauthRefreshTokens

theorem runs_authorize {clients : List OAuthClient} {userId : Uuid} {raw : AuthorizeRequest}
    {now : Instant} {random code : String}
    (h : Runs (AuthorizationService.authorize config clients userId raw now random) w code w') :
    Authorized config clients userId raw now random w.store w'.store := by
  simp only [AuthorizationService.authorize, findByIdForUpdate, insertOAuth, runs_bind_iff,
    runs_checked_iff, runs_protocol_iff, runs_ensure_iff, runs_require_iff, runs_selectKey_iff,
    runs_insertRow_iff, runs_pure_iff] at h
  obtain ⟨request, _, ⟨hparse, rfl⟩, h⟩ := h
  obtain rfl := parse_authorize hparse
  obtain ⟨_, _, ⟨-, rfl⟩, _, _, ⟨haudience, rfl⟩, _, _, ⟨rfl, rfl⟩, _, _, ⟨havailable, rfl⟩, h⟩ := h
  obtain ⟨client, _, ⟨hclient, rfl⟩, _, _, ⟨hredirect, rfl⟩, _, _, ⟨haccepts, -, rfl⟩, -, rfl⟩ := h
  refine ⟨⟨client, List.mem_of_find?_eq_some hclient, ?_, hredirect⟩, ?_, havailable, ?_, rfl, rfl⟩
  · simpa using List.find?_some hclient
  · simpa using haudience
  · exact Table.rows_insert haccepts

/-- A code that stands up to every check is consumed; its user gets the tokens of a new family,
for the client, the scope and the audience of the code. -/
structure Exchanged (config : OAuthConfig) (grant : TokenCodeGrant) (now : Instant)
    (randoms : TokenRandoms) (code : OAuthAuthorizationCode) (w w' : World Store Tick) : Prop where
  stored : code ∈ w.store.oauthAuthorizationCodes.rows
  hash : code.codeHash = AuthPlatform.sha256 grant.code
  sound : TokenService.codeViolation grant code now = none
  issued : ∃ k, w.drawn ≤ k ∧ k < w'.drawn ∧ Issued config
    ⟨code.userId, code.clientId, code.scope, code.resource, (w.inputs k).id, now⟩ randoms
    (withoutCode w.store code.codeHash) w'.store

/-- The exchange once the user is locked. -/
def exchangeCode (config : OAuthConfig) (grant : TokenCodeGrant) (now : Instant)
    (randoms : TokenRandoms) : OAuthTx (Except OAuthError TokenResponse) := do
  match ← OAuthAuthorizationCodeRepository.consume (AuthPlatform.sha256 grant.code) with
  | none => return .error ⟨.invalidGrant, "invalid or used authorization code"⟩
  | some code =>
      match TokenService.codeViolation grant code now with
      | some error => return .error error
      | none => do
          let familyId ← OAuthTx.newId
          TokenService.issue config
            ⟨code.userId, code.clientId, code.scope, code.resource, familyId, now⟩ randoms

theorem authorizationCodeGrant_eq (raw : TokenCodeGrant) (now : Instant) (randoms : TokenRandoms) :
    TokenService.authorizationCodeGrant config raw now randoms = (do
      let grant ← OAuthTx.checked raw.parse
      let pending ← OAuthAuthorizationCodeRepository.findByHash (AuthPlatform.sha256 grant.code)
      pending.forM fun row => discard (findByIdForUpdate row.userId)
      exchangeCode config grant now randoms) := by
  unfold TokenService.authorizationCodeGrant exchangeCode
  refine bind_congr fun grant => bind_congr fun pending => ?_
  cases pending with
  | none => rfl
  | some row => rfl

theorem runs_exchangeCode {grant : TokenCodeGrant} {now : Instant} {randoms : TokenRandoms}
    {r : Except OAuthError TokenResponse} (h : Runs (exchangeCode config grant now randoms) w r w') :
    (∃ e, r = .error e) ∧ w'.store = withoutCode w.store (AuthPlatform.sha256 grant.code) ∨
      (∃ response, r = .ok response) ∧ ∃ code, Exchanged config grant now randoms code w w' := by
  obtain ⟨found, w₁, hconsume, h⟩ := runs_bind_iff.mp h
  obtain ⟨hfound, rfl⟩ := runs_consume hconsume
  cases found with
  | none =>
    obtain ⟨rfl, rfl⟩ := runs_pure_iff.mp h
    exact .inl ⟨⟨_, rfl⟩, rfl⟩
  | some code =>
    have hstored := Table.mem_of_find? hfound.symm
    have hhash : code.codeHash = AuthPlatform.sha256 grant.code := Table.find?_key hfound.symm
    cases hviolation : TokenService.codeViolation grant code now with
    | some error =>
      simp only [hviolation] at h
      obtain ⟨rfl, rfl⟩ := runs_pure_iff.mp h
      exact .inl ⟨⟨_, rfl⟩, rfl⟩
    | none =>
      simp only [hviolation] at h
      obtain ⟨familyId, w₂, hid, hissue⟩ := runs_bind_iff.mp h
      obtain ⟨rfl, rfl⟩ := runs_oauthNewId_iff.mp hid
      rcases runs_issue hissue with ⟨rfl, rfl⟩ | ⟨hresponse, hissued⟩
      · exact .inl ⟨⟨_, rfl⟩, rfl⟩
      · refine .inr ⟨hresponse, code, hstored, hhash, hviolation, w.drawn, le_rfl, ?_, ?_⟩
        · exact hissue.drawn_le
        · rwa [hhash]

/-- The code is gone whatever the answer is. -/
theorem runs_authorizationCodeGrant {raw : TokenCodeGrant} {now : Instant} {randoms : TokenRandoms}
    {r : Except OAuthError TokenResponse}
    (h : Runs (TokenService.authorizationCodeGrant config raw now randoms) w r w') :
    (∃ e, r = .error e) ∧ w'.store = withoutCode w.store (AuthPlatform.sha256 raw.code) ∨
      (∃ response, r = .ok response) ∧ ∃ code, Exchanged config raw now randoms code w w' := by
  simp only [authorizationCodeGrant_eq, runs_bind_iff, runs_checked_iff] at h
  obtain ⟨grant, _, ⟨hparse, rfl⟩, pending, _, hpending, _, w₁, hlock, h⟩ := h
  obtain rfl := parse_tokenCode hparse
  obtain rfl := hpending.of_readsOnly (Program.readsOnly_read _)
  have hlocked : w₁ = _ := hlock.of_readsOnly (by
    cases pending with
    | none => exact Program.readsOnly_pure ()
    | some row => exact (Program.readsOnly_read _).bind fun _ => Program.readsOnly_pure ())
  rw [hlocked] at h
  exact runs_exchangeCode h

/-- What a refresh token must be before it is rotated, or found to be replayed. -/
structure Presented (grant : TokenRefreshGrant) (now : Instant) (row : OAuthRefreshToken)
    (s : Store) : Prop where
  stored : row ∈ s.oauthRefreshTokens.rows
  hash : row.tokenHash = AuthPlatform.sha256 grant.refreshToken
  client : row.clientId = grant.clientId
  unrevoked : row.revokedAt = none
  unexpired : now < row.expiresAt

/-- An unspent token is spent, and its user gets the tokens of the same family. -/
structure Rotated (config : OAuthConfig) (grant : TokenRefreshGrant) (now : Instant)
    (randoms : TokenRandoms) (row : OAuthRefreshToken) (w w' : World Store Tick) : Prop where
  presented : Presented grant now row w.store
  unspent : row.usedAt = none
  issued : ∃ spentAt s₁, Spent row spentAt w.store s₁ ∧ Issued config
    ⟨row.userId, row.clientId, row.scope, canonicalizeResource row.resource, row.familyId, now⟩
    randoms s₁ w'.store

/-- A spent token is presented again: its family is revoked, and every access token of its user. -/
structure Replayed (grant : TokenRefreshGrant) (now : Instant) (row : OAuthRefreshToken)
    (w w' : World Store Tick) : Prop where
  presented : Presented grant now row w.store
  spent : row.usedAt.isSome
  wanes : Wanes w.store w'.store
  family : ∀ r ∈ w'.store.oauthRefreshTokens.rows, r.familyId = row.familyId → r.revokedAt.isSome
  access : ∀ r ∈ w'.store.oauthAccessTokens.rows, r.userId = row.userId → r.revokedAt.isSome

theorem runs_refreshTokenGrant {raw : TokenRefreshGrant} {now : Instant} {randoms : TokenRandoms}
    {r : Except OAuthError TokenResponse}
    (h : Runs (TokenService.refreshTokenGrant config raw now randoms) w r w') :
    r = .error TokenService.reuseDetected ∧ (∃ row, Replayed raw now row w w') ∨
      (∃ response, r = .ok response) ∧ ∃ row, Rotated config raw now randoms row w w' := by
  simp only [TokenService.refreshTokenGrant, OAuthRefreshTokenRepository.findByHash,
    findByIdForUpdate, runs_bind_iff, runs_checked_iff, runs_require_iff, runs_read_iff,
    runs_selectKey_iff, runs_ensure_iff] at h
  obtain ⟨grant, _, ⟨hparse, rfl⟩, _, _, ⟨rfl, rfl⟩, first, _, ⟨-, rfl⟩, _, _, ⟨-, rfl⟩, h⟩ := h
  obtain rfl := parse_tokenRefresh hparse
  obtain ⟨_, _, ⟨rfl, rfl⟩, row, _, ⟨hrow, rfl⟩, _, _, ⟨hlive, rfl⟩, _, _, ⟨hclient, rfl⟩, h⟩ := h
  obtain ⟨claimed, w₁, hclaim, h⟩ := h
  rename_i w₀
  simp only [Bool.and_eq_true, Option.isNone_iff_eq_none, decide_eq_true_eq] at hlive
  have hstored : row ∈ w₀.store.oauthRefreshTokens.rows := List.mem_of_find?_eq_some hrow
  have hpresented : Presented grant now row w₀.store :=
    ⟨hstored, by simpa using List.find?_some hrow, by simpa using hclient, hlive.1, hlive.2⟩
  rcases runs_markUsed hstored hclaim with ⟨rfl, hunspent, spentAt, hspent⟩ | ⟨rfl, hspent, hstore⟩
  · obtain ⟨result, w₂, hissue, h⟩ := runs_bind_iff.mp h
    obtain ⟨response, hprotocol, rfl⟩ := runs_map_iff.mp h
    obtain ⟨rfl, rfl⟩ := runs_protocol_iff.mp hprotocol
    rcases runs_issue hissue with ⟨hfailed, -⟩ | ⟨-, hissued⟩
    · cases hfailed
    · exact .inr ⟨⟨response, rfl⟩, row, hpresented, hunspent, spentAt, _, hspent, hissued⟩
  · obtain ⟨rfl, hwanes, hfamily, haccess⟩ := runs_replayed h
    exact .inl ⟨rfl, row, hpresented, hspent, hstore ▸ hwanes, hfamily, haccess⟩

end platform

section events

variable [OAuthPlatform] {config : OAuthConfig} {st : GrantState}

/-- What an event does to the grants. -/
inductive GrantEffect (config : OAuthConfig) (st st' : GrantState) : GrantEvent → Prop
  | waned {e : GrantEvent} (h : Wanes st.world.store st'.world.store) : GrantEffect config st st' e
  | authorized {userId : Uuid} {raw : AuthorizeRequest} {now : Instant} {random : String}
      (h : Authorized config st.clients userId raw now random st.world.store st'.world.store) :
      GrantEffect config st st' (.authorize userId raw now random)
  | exchanged {grant : TokenCodeGrant} {now : Instant} {randoms : TokenRandoms}
      {code : OAuthAuthorizationCode}
      (h : Exchanged config grant now randoms code st.world st'.world) :
      GrantEffect config st st' (.token (.authorizationCode grant) now randoms)
  | rotated {grant : TokenRefreshGrant} {now : Instant} {randoms : TokenRandoms}
      {row : OAuthRefreshToken} (h : Rotated config grant now randoms row st.world st'.world) :
      GrantEffect config st st' (.token (.refreshToken grant) now randoms)

theorem token_effect (request : TokenRequest) (now : Instant) (randoms : TokenRandoms) :
    GrantEffect config st (st.token config request now randoms).2 (.token request now randoms) := by
  unfold GrantState.token GrantState.after
  rcases ht : transact (TokenService.token config request now randoms) st.world with ⟨e | r, w'⟩
  · exact .waned (by simpa [transact_error ht] using Wanes.refl _)
  have hruns := transact_ok_iff.mp ht
  cases request with
  | authorizationCode grant =>
    rcases runs_authorizationCodeGrant hruns with ⟨-, hstore⟩ | ⟨-, code, hexchanged⟩
    · exact .waned (hstore ▸ wanes_withoutCode _ _)
    · exact .exchanged hexchanged
  | refreshToken grant =>
    rcases runs_refreshTokenGrant hruns with ⟨-, row, hreplayed⟩ | ⟨-, row, hrotated⟩
    · exact .waned hreplayed.wanes
    · exact .rotated hrotated

theorem authorize_effect (userId : Uuid) (raw : AuthorizeRequest) (now : Instant) (random : String) :
    GrantEffect config st (st.authorize config userId raw now random).2
      (.authorize userId raw now random) := by
  unfold GrantState.authorize GrantState.after
  rcases ht : transact (AuthorizationService.authorize config st.clients userId raw now random)
    st.world with ⟨e | code, w'⟩
  · exact .waned (by simpa [transact_error ht] using Wanes.refl _)
  · exact .authorized (runs_authorize (transact_ok_iff.mp ht))

/-- A registration leaves the database alone. -/
theorem register_world (raw : RegisterClientRequest) (clientId : String) (now : Instant) :
    (st.register raw clientId now).2.world = st.world := by
  unfold GrantState.register
  cases RegistrationService.register st.clients raw clientId now <;> rfl

/-- Every event has one of the listed effects. -/
theorem step_effect (e : GrantEvent) : GrantEffect config st (st.step config e) e := by
  cases e with
  | register raw clientId now =>
    refine .waned ?_
    rw [show (st.step config (.register raw clientId now)).world = st.world from register_world ..]
    exact .refl _
  | authorize userId raw now random => exact authorize_effect userId raw now random
  | token request now randoms => exact token_effect request now randoms
  | revoke rawToken clientId => exact .waned (wanes_transact (wanes_revoke rawToken clientId) _)
  | authenticate rawToken now => exact .waned (wanes_authenticate config st.clients rawToken now)
  | replacePassword userId checkedHash newHash keepHash =>
    exact .waned (wanes_transact (wanes_replacePassword userId checkedHash newHash keepHash) _)
  | createAdmin systemUserId email force temp =>
    exact .waned (wanes_createAdminUser systemUserId email force temp _)
  | operation op => exact .waned (wanes_operation op)

theorem step_advances (e : GrantEvent) : Advances st.world (st.step config e).world := by
  cases e with
  | register raw clientId now =>
    rw [show (st.step config (.register raw clientId now)).world = st.world from register_world ..]
    exact .refl _
  | authorize userId raw now random => exact advances_transact _ _
  | token request now randoms => exact advances_transact _ _
  | revoke rawToken clientId => exact advances_transact _ _
  | authenticate rawToken now => exact advances_authenticate config st.clients rawToken now
  | replacePassword userId checkedHash newHash keepHash => exact advances_transact _ _
  | createAdmin systemUserId email force temp => exact advances_createAdminUser _ _ _ _ _
  | operation op => exact advances_operation op

end events

end AiKanban.Effects.Grants
