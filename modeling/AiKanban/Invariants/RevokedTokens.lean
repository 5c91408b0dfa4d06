import AiKanban.Invariants.RefreshFamilies

/-!
# Tokens that stay revoked

What a replay revokes, and what a change of credentials revokes, no later event makes usable.
-/
namespace AiKanban.Invariants.Grants

open Domain Db Effects Effects.Grants Relational Server Transactions Transitions
open Application

section runs

theorem markUsed_refused {w : World Store Tick} {row : OAuthRefreshToken}
    (hrow : row ∈ w.store.oauthRefreshTokens.rows) (hspent : row.usedAt.isSome) :
    ∃ w₁, Runs (OAuthRefreshTokenRepository.markUsed row.id) w false w₁ := by
  have hruns : ∃ claimed w₁, Runs (OAuthRefreshTokenRepository.markUsed row.id) w claimed w₁ :=
    exists_runs_bind (runs_oauthClockNow_iff.mpr ⟨rfl, rfl⟩)
      ⟨_, _, runs_updateGuarded_iff.mpr ⟨rfl, rfl⟩⟩
  obtain ⟨claimed, w₁, hruns⟩ := hruns
  rcases runs_markUsed hrow hruns with ⟨-, hunspent, -⟩ | ⟨rfl, -, -⟩
  · rw [hunspent] at hspent
    cases hspent
  · exact ⟨w₁, hruns⟩

theorem replayed_runs (row : OAuthRefreshToken) (w : World Store Tick) :
    ∃ r w', Runs (TokenService.replayed row) w r w' := by
  have hfamily : ∃ u w₁, Runs (OAuthRefreshTokenRepository.revokeFamily row.familyId) w u w₁ :=
    exists_runs_bind (runs_oauthClockNow_iff.mpr ⟨rfl, rfl⟩) ⟨(), _, runs_modifyWhere_iff.mpr rfl⟩
  obtain ⟨u, w₁, hfamily⟩ := hfamily
  have huser : ∃ u w₂, Runs (OAuthAccessTokenRepository.revokeForUser row.userId) w₁ u w₂ :=
    exists_runs_bind (runs_oauthClockNow_iff.mpr ⟨rfl, rfl⟩) ⟨(), _, runs_modifyWhere_iff.mpr rfl⟩
  obtain ⟨u', w₂, huser⟩ := huser
  exact exists_runs_bind hfamily (exists_runs_bind huser ⟨_, _, runs_pure_iff.mpr ⟨rfl, rfl⟩⟩)

end runs

section platform

variable [OAuthPlatform] {config : OAuthConfig} {st : GrantState}

section access

/-- Every access token stays, as it was but for its use and its revocation. -/
theorem access_kept (e : GrantEvent) {r : OAuthAccessToken}
    (hr : r ∈ st.world.store.oauthAccessTokens.rows) :
    ∃ r' ∈ (st.step config e).world.store.oauthAccessTokens.rows, Worn r r' := by
  cases (step_effect e : GrantEffect config st (st.step config e) e) with
  | waned hwanes =>
    obtain ⟨f, hf, hrows⟩ := hwanes.access
    exact ⟨f r, by rw [hrows]; exact List.mem_map_of_mem hr, hf r⟩
  | authorized hauthorized => exact ⟨r, by rwa [hauthorized.access], .refl r⟩
  | exchanged hexchanged =>
    obtain ⟨k, -, -, hissued⟩ := hexchanged.issued
    obtain ⟨id, -, hrows⟩ := hissued.access
    exact ⟨r, by rw [hrows]; exact List.mem_append_left _ hr, .refl r⟩
  | rotated hrotated =>
    obtain ⟨spentAt, s₁, hspent, hissued⟩ := hrotated.issued
    obtain ⟨id, -, hrows⟩ := hissued.access
    rw [hspent.access] at hrows
    exact ⟨r, by rw [hrows]; exact List.mem_append_left _ hr, .refl r⟩

theorem access_kept_run (events : List GrantEvent) {r : OAuthAccessToken}
    (hr : r ∈ st.world.store.oauthAccessTokens.rows) :
    ∃ r' ∈ (runAll (GrantState.step config) st events).world.store.oauthAccessTokens.rows,
      Worn r r' := by
  induction events generalizing st r with
  | nil => exact ⟨r, hr, .refl r⟩
  | cons e events ih =>
    obtain ⟨r₁, hr₁, hworn⟩ := access_kept e hr
    obtain ⟨r₂, hr₂, hworn'⟩ := ih hr₁
    exact ⟨r₂, hr₂, hworn.trans hworn'⟩

/-- A revoked token authenticates nobody. -/
theorem authenticate_revoked {r : OAuthAccessToken} {rawToken : String}
    (hr : r ∈ st.world.store.oauthAccessTokens.rows) (hhash : r.tokenHash = AuthPlatform.sha256 rawToken)
    (hrevoked : r.revokedAt.isSome) (now : Instant) :
    (st.authenticate config rawToken now).1 = none := by
  have hruns : Runs (McpAuth.resolve (AuthPlatform.sha256 rawToken)) st.world
      (some (r, (st.world.store.users.find? r.userId).map (·.user))) st.world := by
    refine runs_bind_iff.mpr ⟨_, _, runs_read_iff.mpr ⟨rfl, rfl⟩, ?_⟩
    rw [find_access hr hhash]
    exact runs_read_iff.mpr ⟨rfl, rfl⟩
  have hrejects : ∀ user, McpAuth.accepts config r user now = false := by
    intro user
    cases hat : r.revokedAt with
    | none => simp [hat] at hrevoked
    | some revokedAt => simp [McpAuth.accepts, hat]
  unfold GrantState.authenticate GrantState.after McpAuth.authenticateAccessToken
  rw [transact_ok_iff.mpr hruns]
  cases st.world.store.users.find? r.userId with
  | none => rfl
  | some row => simp [hrejects]

/-- Nor does it after any further run. -/
theorem revoked_access_run (events : List GrantEvent) {r : OAuthAccessToken} {rawToken : String}
    (hr : r ∈ st.world.store.oauthAccessTokens.rows)
    (hhash : r.tokenHash = AuthPlatform.sha256 rawToken) (hrevoked : r.revokedAt.isSome)
    (now : Instant) :
    ((runAll (GrantState.step config) st events).authenticate config rawToken now).1 = none := by
  obtain ⟨r', hr', hworn⟩ := access_kept_run events hr
  refine authenticate_revoked hr' ?_ (hworn.revoked hrevoked) now
  rw [hworn.same]
  exact hhash

end access

section replays

/-- A spent token that is presented as if it were not ends its family, and that is committed. -/
theorem spent_replays {grant : TokenRefreshGrant} {now : Instant} {randoms : TokenRandoms}
    {row : OAuthRefreshToken} {w : World Store Tick} (hparse : grant.parse = .ok grant)
    (hpresented : Presented grant now row w.store) (hspent : row.usedAt.isSome) :
    ∃ w', Runs (TokenService.refreshTokenGrant config grant now randoms) w
      (.error TokenService.reuseDetected) w' ∧ Replayed grant now row w w' := by
  have hfound := find_refresh hpresented.stored hpresented.hash
  have hlive : (row.revokedAt.isNone && now < row.expiresAt) = true := by
    simp [hpresented.unrevoked, hpresented.unexpired]
  obtain ⟨w₁, hclaim⟩ := markUsed_refused hpresented.stored hspent
  obtain ⟨r, w', hreplayed⟩ := replayed_runs row w₁
  have hruns : Runs (TokenService.refreshTokenGrant config grant now randoms) w r w' := by
    refine runs_bind_iff.mpr ⟨grant, w, runs_checked_iff.mpr ⟨hparse, rfl⟩, ?_⟩
    refine runs_bind_iff.mpr ⟨_, w, runs_read_iff.mpr ⟨hfound.symm, rfl⟩, ?_⟩
    refine runs_bind_iff.mpr ⟨row, w, runs_require_iff.mpr ⟨rfl, rfl⟩, ?_⟩
    refine runs_bind_iff.mpr ⟨_, w, runs_selectKey_iff.mpr ⟨rfl, rfl⟩, ?_⟩
    refine runs_bind_iff.mpr ⟨_, w, runs_read_iff.mpr ⟨hfound.symm, rfl⟩, ?_⟩
    refine runs_bind_iff.mpr ⟨row, w, runs_require_iff.mpr ⟨rfl, rfl⟩, ?_⟩
    refine runs_bind_iff.mpr ⟨(), w, runs_ensure_iff.mpr ⟨hlive, rfl⟩, ?_⟩
    refine runs_bind_iff.mpr ⟨(), w, runs_ensure_iff.mpr ⟨?_, rfl⟩, ?_⟩
    · simp [hpresented.client]
    · exact runs_bind_iff.mpr ⟨false, w₁, hclaim, hreplayed⟩
  rcases runs_refreshTokenGrant hruns with ⟨rfl, row', hended⟩ | ⟨-, row', hrotated⟩
  · have hsame : row' = row := refresh_of_hash hended.presented.stored hpresented.stored
      (hended.presented.hash.trans hpresented.hash.symm)
    exact ⟨w', hruns, hsame ▸ hended⟩
  · have hsame : row' = row := refresh_of_hash hrotated.presented.stored hpresented.stored
      (hrotated.presented.hash.trans hpresented.hash.symm)
    rw [← hsame, hrotated.unspent] at hspent
    cases hspent

/-- In any run, a spent token that is presented again by its client is refused, and that refusal
revokes its family for good: whatever happens afterwards, no token of the family is exchanged, and
no access token that the user had at that time authenticates anybody. -/
theorem replay_ends_family {inputs : ℕ → Tick} (hids : Function.Injective fun k => (inputs k).id)
    (config : OAuthConfig) (before : List GrantEvent) {grant : TokenRefreshGrant} {now : Instant}
    {row : OAuthRefreshToken} (hparse : grant.parse = .ok grant)
    (hpresented : Presented grant now row
      (runAll (GrantState.step config) (GrantState.start inputs) before).world.store)
    (hspent : row.usedAt.isSome) (randoms : TokenRandoms) :
    let st := runAll (GrantState.step config) (GrantState.start inputs) before
    let replay := st.token config (.refreshToken grant) now randoms
    replay.1 = .error (.protocol TokenService.reuseDetected) ∧
      ∀ after : List GrantEvent,
        let later := runAll (GrantState.step config) replay.2 after
        (∀ row' ∈ later.world.store.oauthRefreshTokens.rows, row'.familyId = row.familyId →
          ∀ (grant' : TokenRefreshGrant) (now' : Instant) (randoms' : TokenRandoms)
            (response : TokenResponse), row'.tokenHash = AuthPlatform.sha256 grant'.refreshToken →
            (later.token config (.refreshToken grant') now' randoms').1 ≠ .ok response) ∧
        ∀ access ∈ st.world.store.oauthAccessTokens.rows, access.userId = row.userId →
          ∀ (rawToken : String) (now' : Instant), access.tokenHash = AuthPlatform.sha256 rawToken →
            (later.authenticate config rawToken now').1 = none := by
  intro st replay
  obtain ⟨w', hruns, hreplayed⟩ := spent_replays hparse hpresented hspent
  have hreplay : replay = (.error (.protocol TokenService.reuseDetected), { st with world := w' }) := by
    have ht : transact (TokenService.token config (.refreshToken grant) now randoms) st.world =
        (.ok (.error TokenService.reuseDetected), w') := transact_ok_iff.mpr hruns
    simp only [replay, GrantState.token, GrantState.after, ht]
    rfl
  have htree : FamilyTree st.world := familyTree_run hids before
  have hadvances : Advances st.world w' := ⟨hruns.inputs, hruns.drawn_le⟩
  have hids' : Function.Injective fun k => (w'.inputs k).id := by
    rw [hadvances.inputs]
    exact htree.ids
  have hended : Ended w' row.familyId :=
    ⟨(htree.drawn row hpresented.stored).advance hadvances, hreplayed.family⟩
  rw [hreplay]
  refine ⟨rfl, fun after => ⟨?_, ?_⟩⟩
  · intro row' hrow' hfamily grant' now' randoms' response hhash
    have hlater : Ended (runAll (GrantState.step config) { st with world := w' } after).world
        row.familyId := ended_run hids' hended after
    rw [← hfamily] at hlater
    exact hlater.refused hrow' hhash now' randoms' response
  · intro access haccess huser rawToken now' hhash
    obtain ⟨f, hf, hrows⟩ := hreplayed.wanes.access
    have haccess' : f access ∈ w'.store.oauthAccessTokens.rows := by
      rw [hrows]
      exact List.mem_map_of_mem haccess
    have hsame := (hf access).same
    refine revoked_access_run after haccess' ?_ ?_ now'
    · rw [hsame]
      exact hhash
    · exact hreplayed.access _ haccess' (by rw [hsame]; exact huser)

end replays

end platform

/-- A token that has been rotated is presented again, and afterwards even the latest access token
of the user authenticates nobody. -/
theorem replay_ends_family_sample :
    let st := runAll (@GrantState.step sampleOAuthPlatform sampleOAuthConfig)
      (GrantState.start sampleTicks) sampleRotation
    let replay := @GrantState.token sampleOAuthPlatform sampleOAuthConfig st
      (.refreshToken ⟨"rkr_r1", "agent", none⟩) 9000 ⟨"a3", "r3"⟩
    replay.1 = .error (.protocol TokenService.reuseDetected) ∧
      (@GrantState.authenticate sampleOAuthPlatform sampleOAuthConfig replay.2 "rka_a2" 10000).1 =
        none := by
  intro st replay
  have hrow : (st.world.store.oauthRefreshTokens.rows.any fun r =>
      r.tokenHash == "sha256:rkr_r1" && r.clientId == "agent" && r.revokedAt.isNone &&
        decide (9000 < r.expiresAt) && r.usedAt.isSome && r.userId == 102) = true := by
    decide +kernel
  have haccess : (st.world.store.oauthAccessTokens.rows.any fun r =>
      r.tokenHash == "sha256:rka_a2" && r.userId == 102) = true := by
    decide +kernel
  obtain ⟨row, hstored, hrow⟩ := List.any_eq_true.mp hrow
  obtain ⟨access, haccess, hsame⟩ := List.any_eq_true.mp haccess
  simp only [Bool.and_eq_true, beq_iff_eq, Option.isNone_iff_eq_none, decide_eq_true_eq] at hrow hsame
  obtain ⟨⟨⟨⟨⟨hhash, hclient⟩, hlive⟩, hunexpired⟩, hspent⟩, huser⟩ := hrow
  obtain ⟨hrefused, hafter⟩ := @replay_ends_family sampleOAuthPlatform sampleTicks
    sampleTicks_injective sampleOAuthConfig sampleRotation ⟨"rkr_r1", "agent", none⟩ 9000 row rfl
    (@Presented.mk sampleOAuthPlatform _ _ _ _ hstored hhash hclient hlive hunexpired) hspent
    ⟨"a3", "r3"⟩
  obtain ⟨-, hnobody⟩ := hafter []
  exact ⟨hrefused, hnobody access haccess (hsame.2.trans huser.symm) "rka_a2" 10000 hsame.1⟩

end AiKanban.Invariants.Grants
