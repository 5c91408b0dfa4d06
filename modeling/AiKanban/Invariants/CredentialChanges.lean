import AiKanban.Invariants.RevokedTokens
import AiKanban.Invariants.SpentCodes

/-!
# Changes of credentials end what was delegated

A new password, a reset by the recovery command, and a change of role, a deactivation or a reset
by an administrator: nothing that the account had delegated before works afterwards.
-/
namespace AiKanban.Invariants.Grants

open Domain Db Effects Effects.Grants Relational Server Transactions Transitions
open Application

section units

variable {w w' : World Store Tick} {userId : Uuid}

/-- No code of the user is left, and every token is revoked. -/
structure Withdrawn (userId : Uuid) (s : Store) : Prop where
  codes : ∀ code ∈ s.oauthAuthorizationCodes.rows, code.userId ≠ userId
  access : ∀ r ∈ s.oauthAccessTokens.rows, r.userId = userId → r.revokedAt.isSome
  refresh : ∀ r ∈ s.oauthRefreshTokens.rows, r.userId = userId → r.revokedAt.isSome

theorem runs_revokeUserCredentials {kept : Option String} {u : Unit}
    (h : Runs (UserAdminService.revokeUserCredentials userId kept) w u w') :
    Withdrawn userId w'.store := by
  obtain ⟨_, w₁, -, h⟩ := runs_bind_iff.mp h
  obtain ⟨_, w₂, hcodes, h⟩ := runs_bind_iff.mp h
  obtain ⟨_, w₃, haccess, hrefresh⟩ := runs_bind_iff.mp h
  obtain ⟨now, w₂', hnow, haccess⟩ := runs_bind_iff.mp haccess
  obtain ⟨now', w₃', hnow', hrefresh⟩ := runs_bind_iff.mp hrefresh
  obtain ⟨-, rfl⟩ := runs_clockNow_iff.mp hnow
  obtain ⟨-, rfl⟩ := runs_clockNow_iff.mp hnow'
  obtain rfl := runs_deleteWhere_iff.mp hcodes
  obtain ⟨hsame, hsame', hrows⟩ := rows_revokeRefresh (p := fun _ user => user == userId) hrefresh
  refine ⟨fun code hcode => ?_, fun r hr huser => ?_, fun r hr huser => ?_⟩
  · rw [hsame] at hcode
    have hkept := (wanes_modifyAccess _ (fun _ => ⟨rfl, fun _ => rfl⟩) _ _ _ haccess).codes code hcode
    simpa using (Table.mem_remove.mp hkept).2
  · rw [hsame'] at hr
    exact runs_revokeAccess haccess r hr (by simpa using huser)
  · rw [hrows] at hr
    obtain ⟨before, -, rfl⟩ := List.mem_map.mp hr
    have hbefore : before.userId = userId := huser
    simp [stampRow, hbefore]

/-- What an administrator changes about an account that its delegates must not outlive. -/
def ChangesStanding (found : User) (raw : UpdateUserInput) : Prop :=
  (∃ role, raw.role = some role ∧ role ≠ found.role) ∨
    (found.isActive = true ∧ raw.isActive = some false) ∨ raw.resetPassword = true

theorem parse_changesStanding {raw input : UpdateUserInput} (h : raw.parse = .ok input) (found : User) :
    ChangesStanding found input = ChangesStanding found raw := by
  unfold UpdateUserInput.parse at h
  iterate 3 obtain ⟨_, -, h⟩ := ok_of_bind h
  cases h
  rfl

/-- The checks read the account and leave what the caller asked for as it was. -/
theorem runs_accountChecks {deps : UserAdminServiceDeps} {actor : Actor} {raw : UpdateUserInput}
    {checked : UpdateUserInput × User} (h : Runs (accountChecks deps actor userId raw) w checked w) :
    ChangesStanding checked.2 checked.1 = ChangesStanding checked.2 raw ∧
      (w.store.users.find? userId).map (·.user) = some checked.2 := by
  simp only [accountChecks, loadActivePolicy, UserRepository.findById, runs_bind_iff,
    runs_ofExcept_iff, runs_read_iff, runs_requireFound_iff, runs_pure_iff] at h
  obtain ⟨input, _, ⟨hparse, rfl⟩, policy, _, hpolicy, _, _, ⟨-, rfl⟩, _, _, hrole, h⟩ := h
  obtain ⟨_, _, ⟨rfl, rfl⟩, found, _, ⟨hfound, rfl⟩, _, _, -, rfl, rfl⟩ := h
  obtain ⟨rfl, -⟩ := runs_activePolicy_roles hpolicy
  obtain rfl := hrole.of_readsOnly (readsOnly_forPresent fun _ => Program.readsOnly_ensure _ _)
  exact ⟨parse_changesStanding hparse found, hfound⟩

/-- An update that changes the standing of an account ends with a revocation. -/
theorem runs_accountWrites_withdraws {input : UpdateUserInput} {found : User} {temp : TempPassword}
    {r : User × Option TempPassword} (hchange : ChangesStanding found input)
    (h : Runs (accountWrites userId input found temp) w r w') : Withdrawn userId w'.store := by
  have hrevoked : ∀ {w₁ : World Store Tick} {r' : User × Option TempPassword}, Runs (do
      UserAdminService.revokeUserCredentials userId none
      return r' : Tx (User × Option TempPassword)) w₁ r w' → Withdrawn userId w'.store := by
    intro w₁ r' h
    obtain ⟨_, w₂, hrevoke, h⟩ := runs_bind_iff.mp h
    obtain ⟨-, rfl⟩ := runs_pure_iff.mp h
    exact runs_revokeUserCredentials hrevoke
  have hcond : input.role.getD found.role ≠ found.role ∨
      (found.isActive ∧ ¬ input.isActive.getD found.isActive) ∨ input.resetPassword := by
    rcases hchange with ⟨role, hrole, hne⟩ | ⟨hactive, hinput⟩ | hreset
    · exact .inl (by simpa [hrole] using hne)
    · exact .inr (.inl ⟨hactive, by simp [hinput]⟩)
    · exact .inr (.inr hreset)
  obtain ⟨_, w₁, -, h⟩ := runs_bind_iff.mp h
  simp only [if_pos hcond] at h
  split_ifs at h
  · obtain ⟨_, w₂, -, h⟩ := runs_bind_iff.mp h
    exact hrevoked h
  · exact hrevoked h

theorem runs_updateUser_withdraws {deps : UserAdminServiceDeps} {actor : Actor}
    {raw : UpdateUserInput} {temp : TempPassword} {r : User × Option TempPassword}
    {found : UserCredentials} (hfound : w.store.users.find? userId = some found)
    (hchange : ChangesStanding found.user raw)
    (h : Runs (UserAdminService.update deps actor userId raw temp) w r w') :
    Withdrawn userId w'.store := by
  rw [updateUser_eq, runs_bind_iff] at h
  obtain ⟨⟨input, user⟩, w, hchecks, hwrites⟩ := h
  obtain rfl := hchecks.of_readsOnly (readsOnly_accountChecks _ _ _ _)
  obtain ⟨hinput, huser⟩ := runs_accountChecks hchecks
  obtain ⟨row, hrow, rfl⟩ := Option.map_eq_some_iff.mp huser
  obtain rfl : row = found := by
    rw [hfound] at hrow
    exact (Option.some.inj hrow).symm
  exact runs_accountWrites_withdraws (hinput ▸ hchange) hwrites

theorem runs_replacePassword_withdraws {checkedHash newHash keepHash : String} {u : Unit}
    (h : Runs (AuthService.replacePassword userId checkedHash newHash keepHash) w u w') :
    Withdrawn userId w'.store := by
  simp only [AuthService.replacePassword, runs_bind_iff] at h
  obtain ⟨_, _, -, _, _, -, _, _, -, _, _, -, _, _, -, _, _, -, _, _, -, _, _, -, h⟩ := h
  exact runs_revokeUserCredentials h

theorem runs_resetExisting_withdraws {existing user : User} {temp : TempPassword}
    (h : Runs (CreateAdmin.resetExisting existing temp) w user w') :
    user.id = existing.id ∧ Withdrawn user.id w'.store := by
  obtain ⟨_, w₁, -, h⟩ := runs_bind_iff.mp h
  obtain ⟨_, w₂, -, h⟩ := runs_bind_iff.mp h
  obtain ⟨_, w₃, hrevoke, h⟩ := runs_bind_iff.mp h
  obtain ⟨rfl, rfl⟩ := runs_pure_iff.mp h
  exact ⟨rfl, runs_revokeUserCredentials hrevoke⟩

/-- A new account was not there before. -/
theorem runs_insertFresh {email : String} {temp : TempPassword} {user : User}
    (h : Runs (CreateAdmin.insertFresh email temp) w user w') :
    w.store.users.find? user.id = none := by
  simp only [CreateAdmin.insertFresh, UserAccountRepository.insert, runs_bind_iff, runs_newId_iff,
    runs_clockNow_iff, runs_insertRow_iff, runs_pure_iff] at h
  obtain ⟨_, _, ⟨rfl, rfl⟩, _, _, ⟨rfl, rfl⟩, _, _, ⟨haccepts, -⟩, rfl, -⟩ := h
  exact Table.find?_of_accepts haccepts

theorem promote_withdraws {email : String} {temp : TempPassword} {user : User}
    (h : (CreateAdmin.promote email temp w).1 = .ok user)
    (hthere : (w.store.users.find? user.id).isSome) :
    Withdrawn user.id (CreateAdmin.promote email temp w).2.store := by
  rw [CreateAdmin.promote] at h ⊢
  rcases hf : transact (UserAccountRepository.findByEmail email) w with ⟨e | found, w₁⟩
  · simp [hf] at h
  obtain rfl := (transact_ok_iff.mp hf).of_readsOnly (Program.readsOnly_read _)
  simp only [hf] at h ⊢
  cases found with
  | some existing =>
    rcases ht : transact (CreateAdmin.resetExisting existing.user temp) w₁ with ⟨e | user', w₂⟩
    · simp [ht] at h
    · simp only [ht, Except.ok.injEq] at h ⊢
      exact h ▸ (runs_resetExisting_withdraws (transact_ok_iff.mp ht)).2
  | none =>
    rcases ht : transact (CreateAdmin.insertFresh email temp) w₁ with ⟨e | user', w₂⟩
    · simp [ht] at h
    · simp only [ht, Except.ok.injEq] at h
      obtain rfl := h
      rw [runs_insertFresh (transact_ok_iff.mp ht)] at hthere
      cases hthere

/-- The recovery command on an account that is there resets it. -/
theorem createAdminUser_withdraws [Platform] {systemUserId : Uuid} {email : String} {force : Bool}
    {temp : TempPassword} {user : User}
    (h : (CreateAdmin.createAdminUser systemUserId email force temp w).1 = .ok user)
    (hthere : (w.store.users.find? user.id).isSome) :
    Withdrawn user.id (CreateAdmin.createAdminUser systemUserId email force temp w).2.store := by
  rw [CreateAdmin.createAdminUser] at h ⊢
  rcases hl : transact UserAccountRepository.list w with ⟨e | users, w₁⟩
  · simp [hl] at h
  obtain rfl := (transact_ok_iff.mp hl).of_readsOnly (Program.readsOnly_read _)
  simp only [hl] at h ⊢
  split at h
  · cases h
  · exact promote_withdraws h hthere

end units

section runs

variable [OAuthPlatform] {config : OAuthConfig} {st : GrantState} {userId : Uuid}

/-- A change of the credentials or of the standing of the user, accepted in the state. -/
inductive Resets (st : GrantState) (userId : Uuid) : GrantEvent → Prop
  | password {checkedHash newHash keepHash : String}
      (h : (transact (AuthService.replacePassword userId checkedHash newHash keepHash)
        st.world).1 = .ok ()) :
      Resets st userId (.replacePassword userId checkedHash newHash keepHash)
  | recovery {systemUserId : Uuid} {email : String} {force : Bool} {temp : TempPassword} {user : User}
      (h : (CreateAdmin.createAdminUser systemUserId email force temp st.world).1 = .ok user)
      (hid : user.id = userId) (hthere : (st.world.store.users.find? userId).isSome) :
      Resets st userId (.createAdmin systemUserId email force temp)
  | administration {deps : UserAdminServiceDeps} {actor : Actor} {raw : UpdateUserInput}
      {temp : TempPassword} {r : User × Option TempPassword} {found : UserCredentials}
      (h : (transact (UserAdminService.update deps actor userId raw temp) st.world).1 = .ok r)
      (hfound : st.world.store.users.find? userId = some found)
      (hchange : ChangesStanding found.user raw) :
      Resets st userId (.operation (.administration (.updateUser deps actor userId raw temp)))

theorem Resets.withdrawn {e : GrantEvent} (h : Resets st userId e) :
    Withdrawn userId (st.step config e).world.store := by
  cases h with
  | password h =>
    exact runs_replacePassword_withdraws (transact_ok_iff.mp (Prod.ext h rfl))
  | recovery h hid hthere =>
    subst hid
    exact createAdminUser_withdraws h hthere
  | @administration deps actor raw temp r found h hfound hchange =>
    have hruns := transact_ok_iff.mp (Prod.ext h rfl :
      transact (UserAdminService.update deps actor userId raw temp) st.world = (.ok r, _))
    have hbody : Runs (AdministrationOperation.updateUser deps actor userId raw temp).body st.world ()
        (transact (UserAdminService.update deps actor userId raw temp) st.world).2 :=
      runs_discard_iff.mpr ⟨r, hruns⟩
    change Withdrawn userId (transact (AdministrationOperation.updateUser deps actor userId raw
      temp).body st.world).2.store
    rw [transact_ok_iff.mpr hbody]
    exact runs_updateUser_withdraws hfound hchange hruns

/-- It grants nothing either. -/
theorem Resets.wanes {e : GrantEvent} (h : Resets st userId e) :
    Wanes st.world.store (st.step config e).world.store := by
  cases h with
  | password => exact wanes_transact (wanes_replacePassword _ _ _ _) _
  | recovery => exact wanes_createAdminUser _ _ _ _ _
  | administration => exact wanes_operation _

/-- Every refresh token stays, under its hash, and revoked if it was. -/
theorem refresh_kept (e : GrantEvent) {r : OAuthRefreshToken}
    (hr : r ∈ st.world.store.oauthRefreshTokens.rows) :
    ∃ r' ∈ (st.step config e).world.store.oauthRefreshTokens.rows,
      r'.tokenHash = r.tokenHash ∧ (r.revokedAt.isSome → r'.revokedAt.isSome) := by
  cases (step_effect e : GrantEffect config st (st.step config e) e) with
  | waned hwanes =>
    obtain ⟨stamp, hrows⟩ := hwanes.refresh
    refine ⟨stampRow stamp r, by rw [hrows]; exact List.mem_map_of_mem hr, rfl, fun h => ?_⟩
    simp [stampRow, h]
  | authorized hauthorized => exact ⟨r, by rwa [hauthorized.refresh], rfl, id⟩
  | exchanged hexchanged =>
    obtain ⟨k, -, -, hissued⟩ := hexchanged.issued
    obtain ⟨id', -, hrows⟩ := hissued.refresh
    exact ⟨r, by rw [hrows]; exact List.mem_append_left _ hr, rfl, id⟩
  | @rotated grant now randoms row hrotated =>
    obtain ⟨spentAt, s₁, hspent, hissued⟩ := hrotated.issued
    obtain ⟨id', -, hrows⟩ := hissued.refresh
    rw [hspent.refresh] at hrows
    refine ⟨spendRow row spentAt r, ?_, ?_, ?_⟩
    · rw [hrows]
      exact List.mem_append_left _ (List.mem_map_of_mem hr)
    · unfold spendRow
      split_ifs <;> rfl
    · unfold spendRow
      split_ifs <;> exact fun h => h

theorem refresh_kept_run (events : List GrantEvent) {r : OAuthRefreshToken}
    (hr : r ∈ st.world.store.oauthRefreshTokens.rows) :
    ∃ r' ∈ (runAll (GrantState.step config) st events).world.store.oauthRefreshTokens.rows,
      r'.tokenHash = r.tokenHash ∧ (r.revokedAt.isSome → r'.revokedAt.isSome) := by
  induction events generalizing st r with
  | nil => exact ⟨r, hr, rfl, id⟩
  | cons e events ih =>
    obtain ⟨r₁, hr₁, hhash, hrevoked⟩ := refresh_kept e hr
    obtain ⟨r₂, hr₂, hhash', hrevoked'⟩ := ih hr₁
    exact ⟨r₂, hr₂, hhash'.trans hhash, fun h => hrevoked' (hrevoked h)⟩

/-- Once an account has been reset, nothing that it had delegated before is of use: its access
tokens authenticate nobody, its refresh tokens and its codes are exchanged for nothing, in every
state that any further run reaches. -/
theorem reset_ends_delegation (config : OAuthConfig) (st : GrantState) {userId : Uuid}
    {e : GrantEvent} (he : Resets st userId e) (after : List GrantEvent) :
    let later := runAll (GrantState.step config) (st.step config e) after
    (∀ access ∈ st.world.store.oauthAccessTokens.rows, access.userId = userId →
      ∀ (rawToken : String) (now : Instant), access.tokenHash = AuthPlatform.sha256 rawToken →
        (later.authenticate config rawToken now).1 = none) ∧
    (∀ refresh ∈ st.world.store.oauthRefreshTokens.rows, refresh.userId = userId →
      ∀ (grant : TokenRefreshGrant) (now : Instant) (randoms : TokenRandoms)
        (response : TokenResponse), refresh.tokenHash = AuthPlatform.sha256 grant.refreshToken →
        (later.token config (.refreshToken grant) now randoms).1 ≠ .ok response) ∧
    ∀ code ∈ st.world.store.oauthAuthorizationCodes.rows, code.userId = userId →
      (∀ e' ∈ after, ¬ Mints code.codeHash e') →
      ∀ (grant : TokenCodeGrant) (now : Instant) (randoms : TokenRandoms) (response : TokenResponse),
        code.codeHash = AuthPlatform.sha256 grant.code →
        (later.token config (.authorizationCode grant) now randoms).1 ≠ .ok response := by
  intro later
  have hwithdrawn : Withdrawn userId (st.step config e).world.store := he.withdrawn
  have hwanes : Wanes st.world.store (st.step config e).world.store := he.wanes
  refine ⟨fun access haccess huser rawToken now hhash => ?_,
    fun refresh hrefresh huser grant now randoms response hhash => ?_,
    fun code hcode huser hmints grant now randoms response hhash => ?_⟩
  · obtain ⟨f, hf, hrows⟩ := hwanes.access
    have haccess' : f access ∈ (st.step config e).world.store.oauthAccessTokens.rows := by
      rw [hrows]
      exact List.mem_map_of_mem haccess
    have hsame := (hf access).same
    refine revoked_access_run after haccess' ?_ ?_ now
    · rw [hsame]
      exact hhash
    · exact hwithdrawn.access _ haccess' (by rw [hsame]; exact huser)
  · obtain ⟨stamp, hrows⟩ := hwanes.refresh
    have hrefresh' : stampRow stamp refresh ∈ (st.step config e).world.store.oauthRefreshTokens.rows := by
      rw [hrows]
      exact List.mem_map_of_mem hrefresh
    obtain ⟨r', hr', hhash', hrevoked⟩ := refresh_kept_run after hrefresh'
    exact refresh_revoked hr' (hrevoked (hwithdrawn.refresh _ hrefresh' huser))
      (hhash'.trans hhash) now randoms response
  · have habsent : Absent code.codeHash (st.step config e).world.store := by
      intro code' hcode' hsame
      have hold := hwanes.codes code' hcode'
      have heq : code' = code := Table.eq_of_key hold hcode hsame
      exact hwithdrawn.codes code' hcode' (heq ▸ huser)
    have hlater : Absent code.codeHash later.world.store := absent_run habsent hmints
    rw [hhash] at hlater
    exact hlater.unanswered now randoms response

end runs

/-- The recovery command resets the automation user; the tokens of its agent are of no use. -/
theorem reset_ends_delegation_sample :
    let st := runAll (@GrantState.step sampleOAuthPlatform sampleOAuthConfig)
      (GrantState.start sampleTicks) sampleGrants
    let reset : GrantEvent := .createAdmin 102 systemUserEmail false ⟨"temporary", "hashed"⟩
    (@GrantState.authenticate sampleOAuthPlatform sampleOAuthConfig
      (@GrantState.step sampleOAuthPlatform sampleOAuthConfig st reset) "rka_a1" 9000).1 = none := by
  intro st reset
  have haccepted : (@CreateAdmin.createAdminUser samplePlatform 102 systemUserEmail false
      ⟨"temporary", "hashed"⟩ st.world).1.toOption.any (fun user => user.id == 102) = true := by
    decide +kernel
  have hthere : (st.world.store.users.find? 102).isSome = true := by decide +kernel
  have haccess : (st.world.store.oauthAccessTokens.rows.any fun r =>
      r.tokenHash == "sha256:rka_a1" && r.userId == 102) = true := by
    decide +kernel
  obtain ⟨access, haccess, hsame⟩ := List.any_eq_true.mp haccess
  simp only [Bool.and_eq_true, beq_iff_eq] at hsame
  have hresets : @Resets sampleOAuthPlatform st 102 reset := by
    cases hr : (@CreateAdmin.createAdminUser samplePlatform 102 systemUserEmail false
        ⟨"temporary", "hashed"⟩ st.world).1 with
    | error e =>
      rw [hr] at haccepted
      cases haccepted
    | ok user =>
      rw [hr] at haccepted
      exact @Resets.recovery sampleOAuthPlatform _ _ _ _ _ _ user hr (beq_iff_eq.mp haccepted) hthere
  exact (@reset_ends_delegation sampleOAuthPlatform sampleOAuthConfig st 102 reset hresets []).1
    access haccess hsame.2 "rka_a1" 9000 hsame.1

end AiKanban.Invariants.Grants
