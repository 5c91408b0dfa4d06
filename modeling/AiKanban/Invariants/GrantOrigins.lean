import AiKanban.Invariants.RefreshFamilies

/-!
# Whom an agent acts for

Behind every code and every token of a run stands an authorization of the run, by the user, for
the client, with the scope; and an agent gets in exactly while its token and its user are good.
-/
namespace AiKanban.Invariants.Grants

open Domain Db Effects Effects.Grants Relational Server Transactions Transitions
open Application

section platform

variable [OAuthPlatform] {config : OAuthConfig} {inputs : ℕ → Tick}

/-- The state after a run from a database that has just been seeded. -/
def reached (config : OAuthConfig) (inputs : ℕ → Tick) (events : List GrantEvent) : GrantState :=
  runAll (GrantState.step config) (GrantState.start inputs) events

/-- An event of the run is an authorization by the user, for the client, with the scope, and it
was granted. -/
def Backed (config : OAuthConfig) (inputs : ℕ → Tick) (events : List GrantEvent) (userId : Uuid)
    (clientId : String) (scope : TokenScope) : Prop :=
  ∃ before raw now random after,
    events = before ++ GrantEvent.authorize userId raw now random :: after ∧
      raw.clientId = clientId ∧ raw.scope = scope ∧
      Authorized config (reached config inputs before).clients userId raw now random
        (reached config inputs before).world.store
        (reached config inputs (before ++ [.authorize userId raw now random])).world.store

theorem Backed.extend {events : List GrantEvent} {userId : Uuid} {clientId : String}
    {scope : TokenScope} (h : Backed config inputs events userId clientId scope) (e : GrantEvent) :
    Backed config inputs (events ++ [e]) userId clientId scope := by
  obtain ⟨before, raw, now, random, after, rfl, hrest⟩ := h
  exact ⟨before, raw, now, random, after ++ [e], by simp, hrest⟩

/-- The invariant: what is stored is backed, and for the one audience. -/
structure Origins (config : OAuthConfig) (inputs : ℕ → Tick) (events : List GrantEvent)
    (s : Store) : Prop where
  codes : ∀ code ∈ s.oauthAuthorizationCodes.rows,
    Backed config inputs events code.userId code.clientId code.scope ∧
      code.resource = config.canonicalMcpUri
  access : ∀ token ∈ s.oauthAccessTokens.rows,
    Backed config inputs events token.userId token.clientId token.scope ∧
      token.resource = config.canonicalMcpUri
  refresh : ∀ token ∈ s.oauthRefreshTokens.rows,
    Backed config inputs events token.userId token.clientId token.scope ∧
      token.resource = config.canonicalMcpUri

theorem Origins.extend {events : List GrantEvent} {s : Store} (h : Origins config inputs events s)
    (e : GrantEvent) : Origins config inputs (events ++ [e]) s where
  codes code hcode := ⟨(h.codes code hcode).1.extend e, (h.codes code hcode).2⟩
  access token htoken := ⟨(h.access token htoken).1.extend e, (h.access token htoken).2⟩
  refresh token htoken := ⟨(h.refresh token htoken).1.extend e, (h.refresh token htoken).2⟩

theorem Origins.wanes {events : List GrantEvent} {s s' : Store} (h : Origins config inputs events s)
    (hwanes : Wanes s s') : Origins config inputs events s' where
  codes code hcode := h.codes code (hwanes.codes code hcode)
  access token htoken := by
    obtain ⟨f, hf, hrows⟩ := hwanes.access
    rw [hrows] at htoken
    obtain ⟨before, hbefore, rfl⟩ := List.mem_map.mp htoken
    rw [(hf before).same]
    exact h.access before hbefore
  refresh token htoken := by
    obtain ⟨stamp, hrows⟩ := hwanes.refresh
    rw [hrows] at htoken
    obtain ⟨before, hbefore, rfl⟩ := List.mem_map.mp htoken
    exact h.refresh before hbefore

/-- Tokens that are issued for what is backed. -/
theorem Origins.issue {events : List GrantEvent} {s s' : Store} {args : Issuance}
    {randoms : TokenRandoms} (h : Origins config inputs events s)
    (hargs : Backed config inputs events args.userId args.clientId args.scope ∧
      args.resource = config.canonicalMcpUri) (hissued : Issued config args randoms s s') :
    Origins config inputs events s' := by
  obtain ⟨id, -, haccess⟩ := hissued.access
  obtain ⟨id', -, hrefresh⟩ := hissued.refresh
  refine ⟨by rw [hissued.codes]; exact h.codes, fun token htoken => ?_, fun token htoken => ?_⟩
  · rw [haccess, List.mem_append, List.mem_singleton] at htoken
    rcases htoken with htoken | rfl
    · exact h.access token htoken
    · exact hargs
  · rw [hrefresh, List.mem_append, List.mem_singleton] at htoken
    rcases htoken with htoken | rfl
    · exact h.refresh token htoken
    · exact hargs

theorem reached_append (events : List GrantEvent) (e : GrantEvent) :
    reached config inputs (events ++ [e]) = (reached config inputs events).step config e := by
  unfold reached
  rw [runAll_append]
  rfl

/-- One event keeps the origins. -/
theorem Origins.step {events : List GrantEvent} (haudience :
    canonicalizeResource config.canonicalMcpUri = config.canonicalMcpUri)
    (h : Origins config inputs events (reached config inputs events).world.store) (e : GrantEvent) :
    Origins config inputs (events ++ [e])
      (reached config inputs (events ++ [e])).world.store := by
  have hextended := h.extend e
  have heffect : GrantEffect config (reached config inputs events)
      (reached config inputs (events ++ [e])) e := by
    rw [reached_append]
    exact step_effect e
  cases heffect with
  | waned hwanes => exact hextended.wanes hwanes
  | @authorized userId raw now random hauthorized =>
    refine ⟨fun code hcode => ?_, ?_, ?_⟩
    · rw [hauthorized.codes, List.mem_append, List.mem_singleton] at hcode
      rcases hcode with hcode | rfl
      · exact hextended.codes code hcode
      · exact ⟨⟨events, raw, now, random, [], rfl, rfl, rfl, hauthorized⟩, hauthorized.audience⟩
    · rw [hauthorized.access]
      exact hextended.access
    · rw [hauthorized.refresh]
      exact hextended.refresh
  | @exchanged grant now randoms code hexchanged =>
    obtain ⟨k, -, -, hissued⟩ := hexchanged.issued
    exact (hextended.wanes (wanes_withoutCode _ _)).issue (hextended.codes code hexchanged.stored)
      hissued
  | @rotated grant now randoms row hrotated =>
    obtain ⟨spentAt, s₁, hspent, hissued⟩ := hrotated.issued
    have hspentOrigins : Origins config inputs (events ++ [.token (.refreshToken grant) now randoms]) s₁ := by
      refine ⟨by rw [hspent.codes]; exact hextended.codes, by rw [hspent.access]; exact hextended.access,
        fun token htoken => ?_⟩
      rw [hspent.refresh] at htoken
      obtain ⟨before, hbefore, rfl⟩ := List.mem_map.mp htoken
      have hold := hextended.refresh before hbefore
      unfold spendRow
      split_ifs
      · exact hold
      · exact hold
    obtain ⟨hbacked, hresource⟩ := hextended.refresh row hrotated.presented.stored
    exact hspentOrigins.issue ⟨hbacked, by rw [hresource]; exact haudience⟩ hissued

theorem origins_run (haudience : canonicalizeResource config.canonicalMcpUri = config.canonicalMcpUri)
    (events : List GrantEvent) :
    Origins config inputs events (reached config inputs events).world.store := by
  induction events using List.reverseRecOn with
  | nil =>
    obtain ⟨hcodes, haccess, hrefresh⟩ := start_grants inputs
    change Origins config inputs [] (GrantState.start inputs).world.store
    exact ⟨by simp [hcodes], by simp [haccess], by simp [hrefresh]⟩
  | append_singleton events e ih => exact ih.step haudience e

/-- What authentication makes of a stored token. -/
theorem authenticate_iff {st : GrantState} {rawToken : String} {now : Instant} {actor : Actor} :
    (st.authenticate config rawToken now).1 = some actor ↔
      ∃ token ∈ st.world.store.oauthAccessTokens.rows, token.tokenHash = AuthPlatform.sha256 rawToken ∧
        ∃ row, st.world.store.users.find? token.userId = some row ∧
          McpAuth.accepts config token row.user now = true ∧
          actor = McpAuth.agent st.clients token row.user := by
  have hauth : ∀ found : Option (OAuthAccessToken × Option User),
      Runs (McpAuth.resolve (AuthPlatform.sha256 rawToken)) st.world found st.world →
      (st.authenticate config rawToken now).1 = found.bind fun pair => pair.2.bind fun user =>
        if McpAuth.accepts config pair.1 user now then some (McpAuth.agent st.clients pair.1 user)
        else none := by
    intro found hruns
    unfold GrantState.authenticate GrantState.after McpAuth.authenticateAccessToken
    rw [transact_ok_iff.mpr hruns]
    rcases found with _ | ⟨token, _ | user⟩
    · rfl
    · rfl
    · simp only [Option.bind_some]
      split_ifs <;> rfl
  cases hfound : st.world.store.oauthAccessTokens.rows.find?
      fun r => r.tokenHash == AuthPlatform.sha256 rawToken with
  | none =>
    have hruns : Runs (McpAuth.resolve (AuthPlatform.sha256 rawToken)) st.world none st.world := by
      refine runs_bind_iff.mpr ⟨_, _, runs_read_iff.mpr ⟨rfl, rfl⟩, ?_⟩
      rw [hfound]
      exact runs_pure_iff.mpr ⟨rfl, rfl⟩
    rw [hauth none hruns]
    constructor
    · intro h
      cases h
    · rintro ⟨token, htoken, hhash, -⟩
      exact absurd hhash (by simpa using List.find?_eq_none.mp hfound token htoken)
  | some token =>
    have htoken := List.mem_of_find?_eq_some hfound
    have hhash : token.tokenHash = AuthPlatform.sha256 rawToken := by
      simpa using List.find?_some hfound
    have hruns : Runs (McpAuth.resolve (AuthPlatform.sha256 rawToken)) st.world
        (some (token, (st.world.store.users.find? token.userId).map (·.user))) st.world := by
      refine runs_bind_iff.mpr ⟨_, _, runs_read_iff.mpr ⟨rfl, rfl⟩, ?_⟩
      rw [hfound]
      exact runs_read_iff.mpr ⟨rfl, rfl⟩
    rw [hauth _ hruns]
    constructor
    · intro h
      cases hrow : st.world.store.users.find? token.userId with
      | none => simp [hrow] at h
      | some row =>
        simp only [hrow, Option.map_some, Option.bind_some, Option.ite_none_right_eq_some,
          Option.some.injEq] at h
        exact ⟨token, htoken, hhash, row, hrow, h.1, h.2.symm⟩
    · rintro ⟨token', htoken', hhash', row, hrow, haccepts, rfl⟩
      have hsame := find_access htoken' hhash'
      rw [hfound, Option.some.injEq] at hsame
      subst hsame
      simp [hrow, haccepts]

/-- In any run, a bearer token admits an agent exactly when it is stored, neither revoked nor
expired, and its user is active with a password of their own. The audience is never in the way. -/
theorem agent_admitted_iff (haudience :
    canonicalizeResource config.canonicalMcpUri = config.canonicalMcpUri) (inputs : ℕ → Tick)
    (events : List GrantEvent) (rawToken : String) (now : Instant) (actor : Actor) :
    let st := reached config inputs events
    (st.authenticate config rawToken now).1 = some actor ↔
      ∃ token ∈ st.world.store.oauthAccessTokens.rows,
        token.tokenHash = AuthPlatform.sha256 rawToken ∧ token.revokedAt = none ∧
        now < token.expiresAt ∧ ∃ row, st.world.store.users.find? token.userId = some row ∧
          row.user.isActive = true ∧ row.user.mustChangePassword = false ∧
          actor = McpAuth.agent st.clients token row.user := by
  intro st
  have horigins : Origins config inputs events st.world.store := origins_run haudience events
  rw [authenticate_iff]
  constructor
  · rintro ⟨token, htoken, hhash, row, hrow, haccepts, hactor⟩
    simp only [McpAuth.accepts, Bool.and_eq_true, Bool.not_eq_true', Option.isNone_iff_eq_none,
      decide_eq_true_eq] at haccepts
    obtain ⟨⟨⟨⟨hactive, hmust⟩, hlive⟩, hunexpired⟩, -⟩ := haccepts
    exact ⟨token, htoken, hhash, hlive, hunexpired, row, hrow, hactive, hmust, hactor⟩
  · rintro ⟨token, htoken, hhash, hlive, hunexpired, row, hrow, hactive, hmust, hactor⟩
    refine ⟨token, htoken, hhash, row, hrow, ?_, hactor⟩
    simp [McpAuth.accepts, hactive, hmust, hlive, hunexpired, (horigins.access token htoken).2,
      haudience]

/-- Whoever is let in as an agent, in any run, acts as a user who has authorized that client with
that scope in the run, and with the role that the user has now. -/
theorem agents_are_backed (haudience :
    canonicalizeResource config.canonicalMcpUri = config.canonicalMcpUri) (inputs : ℕ → Tick)
    (events : List GrantEvent) {rawToken : String} {now : Instant} {actor : Actor}
    (hactor : ((reached config inputs events).authenticate config rawToken now).1 = some actor) :
    actor.kind = .agent ∧
      (∃ client scope, actor.client = some client ∧ actor.scope = some scope ∧
        Backed config inputs events actor.id client.id scope) ∧
      ∃ row, (reached config inputs events).world.store.users.find? actor.id = some row ∧
        row.user.isActive = true ∧ row.user.role = actor.role := by
  obtain ⟨token, htoken, -, -, -, row, hrow, hactive, -, rfl⟩ :=
    (agent_admitted_iff haudience inputs events rawToken now actor).mp hactor
  have hbacked := ((origins_run haudience events).access token htoken).1
  exact ⟨rfl, ⟨_, _, rfl, rfl, hbacked⟩, row, hrow, hactive, rfl⟩

end platform

/-- The bearer of the rotated token gets in. -/
theorem agent_admitted_sample :
    let st := @reached sampleOAuthPlatform sampleOAuthConfig sampleTicks sampleRotation
    ∃ actor, (@GrantState.authenticate sampleOAuthPlatform sampleOAuthConfig st "rka_a2" 9000).1 =
      some actor := by
  intro st
  have htoken : (st.world.store.oauthAccessTokens.rows.any fun r =>
      r.tokenHash == "sha256:rka_a2" && r.revokedAt.isNone && decide (9000 < r.expiresAt) &&
        (st.world.store.users.find? r.userId).any fun row =>
          row.user.isActive && !row.user.mustChangePassword) = true := by
    decide +kernel
  obtain ⟨token, hstored, htoken⟩ := List.any_eq_true.mp htoken
  simp only [Bool.and_eq_true, beq_iff_eq, Option.isNone_iff_eq_none, decide_eq_true_eq,
    Option.any_eq_true, Bool.not_eq_true'] at htoken
  obtain ⟨⟨⟨hhash, hlive⟩, hunexpired⟩, row, hrow, hactive, hmust⟩ := htoken
  exact ⟨_, (@agent_admitted_iff sampleOAuthPlatform sampleOAuthConfig (by decide +kernel) sampleTicks
    sampleRotation "rka_a2" 9000 _).mpr
      ⟨token, hstored, hhash, hlive, hunexpired, row, hrow, hactive, hmust, rfl⟩⟩

/-- The agent of the rotated token acts as the automation user. -/
theorem agents_are_backed_sample :
    ∃ actor, (@GrantState.authenticate sampleOAuthPlatform sampleOAuthConfig
        (@reached sampleOAuthPlatform sampleOAuthConfig sampleTicks sampleRotation)
        "rka_a2" 9000).1 = some actor ∧ actor.kind = .agent ∧ ∃ clientId,
      @Backed sampleOAuthPlatform sampleOAuthConfig sampleTicks sampleRotation actor.id clientId
        .readWrite := by
  have hsome : (@GrantState.authenticate sampleOAuthPlatform sampleOAuthConfig
      (@reached sampleOAuthPlatform sampleOAuthConfig sampleTicks sampleRotation)
      "rka_a2" 9000).1.any (fun actor => actor.scope == some .readWrite) = true := by
    decide +kernel
  obtain ⟨actor, hactor, hscope⟩ := (Option.any_eq_true ..).mp hsome
  obtain ⟨hkind, ⟨client, scope, -, hsame, hbacked⟩, -⟩ := @agents_are_backed sampleOAuthPlatform
    sampleOAuthConfig (by decide +kernel) sampleTicks sampleRotation "rka_a2" 9000 actor hactor
  obtain rfl : scope = .readWrite := by
    rw [beq_iff_eq, hsame] at hscope
    exact Option.some.inj hscope
  exact ⟨actor, hactor, hkind, client.id, hbacked⟩

end AiKanban.Invariants.Grants
