import AiKanban.Application.Grants
import AiKanban.Effects.Roles
import AiKanban.Effects.Tables

/-!
# What each event does to the grants

Codes, access tokens and refresh tokens only wane, but for the three units of work that grant
something: an authorization, the exchange of a code and the rotation of a refresh token.
-/
namespace AiKanban.Effects.Grants

open Domain Db Relational Server Services Transactions
open Application

/-- A refresh token that is revoked with its family or with its user keeps its first time. -/
def stampRow (stamp : Uuid → Uuid → Option Instant) (r : OAuthRefreshToken) : OAuthRefreshToken :=
  { r with revokedAt := r.revokedAt.or (stamp r.familyId r.userId) }

/-- An access token after its last use and its revocation have been noted. -/
structure Worn (r r' : OAuthAccessToken) : Prop where
  same : r' = { r with revokedAt := r'.revokedAt, lastUsedAt := r'.lastUsedAt }
  revoked : r.revokedAt.isSome → r'.revokedAt.isSome

theorem Worn.refl (r : OAuthAccessToken) : Worn r r := ⟨rfl, id⟩

theorem Worn.trans {r₁ r₂ r₃ : OAuthAccessToken} (h : Worn r₁ r₂) (h' : Worn r₂ r₃) :
    Worn r₁ r₃ := by
  refine ⟨?_, fun hrevoked => h'.revoked (h.revoked hrevoked)⟩
  rw [h'.same, h.same]

/-- Nothing is granted: codes may go, and tokens may be used and revoked. -/
structure Wanes (s s' : Store) : Prop where
  codes : ∀ code ∈ s'.oauthAuthorizationCodes.rows, code ∈ s.oauthAuthorizationCodes.rows
  access : ∃ f, (∀ r, Worn r (f r)) ∧ s'.oauthAccessTokens.rows = s.oauthAccessTokens.rows.map f
  refresh : ∃ stamp, s'.oauthRefreshTokens.rows = s.oauthRefreshTokens.rows.map (stampRow stamp)

theorem stampRow_none (r : OAuthRefreshToken) : stampRow (fun _ _ => none) r = r := by
  simp [stampRow]

theorem stampRow_stampRow (stamp stamp' : Uuid → Uuid → Option Instant) (r : OAuthRefreshToken) :
    stampRow stamp' (stampRow stamp r) =
      stampRow (fun family user => (stamp family user).or (stamp' family user)) r := by
  simp [stampRow, Option.or_assoc]

theorem Wanes.refl (s : Store) : Wanes s s where
  codes _ := id
  access := ⟨id, Worn.refl, (List.map_id _).symm⟩
  refresh := by
    refine ⟨fun _ _ => none, ?_⟩
    rw [funext stampRow_none]
    exact (List.map_id' _).symm

theorem Wanes.trans {s₁ s₂ s₃ : Store} (h : Wanes s₁ s₂) (h' : Wanes s₂ s₃) : Wanes s₁ s₃ := by
  obtain ⟨f, hf, haccess⟩ := h.access
  obtain ⟨g, hg, haccess'⟩ := h'.access
  obtain ⟨stamp, hrefresh⟩ := h.refresh
  obtain ⟨stamp', hrefresh'⟩ := h'.refresh
  refine ⟨fun code hcode => h.codes code (h'.codes code hcode), ⟨g ∘ f, ?_, ?_⟩,
    ⟨fun family user => (stamp family user).or (stamp' family user), ?_⟩⟩
  · exact fun r => (hf r).trans (hg (f r))
  · rw [haccess', haccess, List.map_map]
  · rw [hrefresh', hrefresh, List.map_map]
    exact List.map_congr_left fun r _ => stampRow_stampRow stamp stamp' r

instance : Std.Refl Wanes := ⟨Wanes.refl⟩
instance : IsTrans Store Wanes := ⟨fun _ _ _ => Wanes.trans⟩

/-- Where the grants of the users are kept. -/
def grantTables : List TableName :=
  [.oauthAuthorizationCodes, .oauthAccessTokens, .oauthRefreshTokens]

theorem Wanes.of_sameTables {s s' : Store} (h : ∀ name ∈ grantTables, s.SameTable name s') :
    Wanes s s' := by
  have hcodes : s'.oauthAuthorizationCodes = s.oauthAuthorizationCodes :=
    h .oauthAuthorizationCodes (by decide)
  have haccess : s'.oauthAccessTokens = s.oauthAccessTokens := h .oauthAccessTokens (by decide)
  have hrefresh : s'.oauthRefreshTokens = s.oauthRefreshTokens := h .oauthRefreshTokens (by decide)
  obtain ⟨-, haccess', hrefresh'⟩ := Wanes.refl s
  constructor
  · rw [hcodes]
    exact fun _ => id
  · rwa [haccess]
  · rwa [hrefresh]

section statements

variable {ε : Type} {w w' : World Store Tick}

theorem wanes_confined {α : Type} {names : List TableName} {p : Tx α}
    (hp : Confined names p) (hnames : ∀ name ∈ grantTables, name ∉ names) : Preserves Wanes p := by
  intro w a w' h
  exact .of_sameTables fun name hname => sameTable_of_confined h hp (hnames name hname)

/-- `DELETE FROM oauth_authorization_codes WHERE p` -/
theorem wanes_deleteCodes (p : OAuthAuthorizationCode → Bool) :
    Preserves Wanes (deleteWhere p : Program Store Write ε Tick Unit) := by
  intro w u w' h
  obtain rfl := runs_deleteWhere_iff.mp h
  obtain ⟨-, haccess, hrefresh⟩ := Wanes.refl w.store
  exact ⟨fun code hcode => (Table.mem_remove.mp hcode).1, haccess, hrefresh⟩

/-- `UPDATE oauth_access_tokens SET … WHERE p`, on the times alone. -/
theorem wanes_modifyAccess (p : OAuthAccessToken → Bool) {f : OAuthAccessToken → OAuthAccessToken}
    (hf : ∀ r, Worn r (f r)) :
    Preserves Wanes (modifyWhere p f : Program Store Write ε Tick Unit) := by
  intro w u w' h
  obtain rfl := runs_modifyWhere_iff.mp h
  obtain ⟨hcodes, -, hrefresh⟩ := Wanes.refl w.store
  refine ⟨hcodes, ⟨fun r => if p r then f r else r, fun r => ?_, ?_⟩, hrefresh⟩
  · dsimp only
    split_ifs
    · exact hf r
    · exact .refl r
  · refine Table.rows_foldl_updateWhere (fun r => ?_) (fun a b => ?_) _ _
    · rw [(hf r).same]
      rfl
    · rw [(hf a).same]
      rfl

/-- `UPDATE oauth_refresh_tokens SET revoked_at = now WHERE p AND revoked_at IS NULL`, for a whole
family or for a user. -/
theorem rows_revokeRefresh {p : Uuid → Uuid → Bool} {now : Instant} {u : Unit}
    (h : Runs (modifyWhere (fun r : OAuthRefreshToken => p r.familyId r.userId && r.revokedAt.isNone)
      (fun r => { r with revokedAt := some now }) : Program Store Write ε Tick Unit) w u w') :
    w'.store.oauthAuthorizationCodes = w.store.oauthAuthorizationCodes ∧
      w'.store.oauthAccessTokens = w.store.oauthAccessTokens ∧
      w'.store.oauthRefreshTokens.rows = w.store.oauthRefreshTokens.rows.map
        (stampRow fun family user => if p family user then some now else none) := by
  obtain rfl := runs_modifyWhere_iff.mp h
  refine ⟨rfl, rfl, ?_⟩
  refine (Table.rows_foldl_updateWhere
    (f := fun r : OAuthRefreshToken => { r with revokedAt := some now })
    (fun _ => rfl) (fun _ _ => rfl) _ _).trans ?_
  refine List.map_congr_left fun r _ => ?_
  obtain ⟨_, _, family, user, _, _, _, _, _, revokedAt, _⟩ := r
  cases revokedAt with
  | some revokedAt => simp [stampRow]
  | none => cases hp : p family user <;> simp [stampRow, hp]

theorem wanes_revokeRefresh (p : Uuid → Uuid → Bool) (now : Instant) :
    Preserves Wanes (modifyWhere
      (fun r : OAuthRefreshToken => p r.familyId r.userId && r.revokedAt.isNone)
      (fun r => { r with revokedAt := some now }) : Program Store Write ε Tick Unit) := by
  intro w u w' h
  obtain ⟨hcodes, haccess, hrefresh⟩ := rows_revokeRefresh h
  obtain ⟨hcodes', haccess', -⟩ := Wanes.refl w.store
  exact ⟨by rwa [hcodes], by rwa [haccess], _, hrefresh⟩

@[simp] theorem runs_oauthClockNow_iff {now : Instant} :
    Runs OAuthTx.clockNow w now w' ↔ now = w.peek.now ∧ w' = w.tick := by
  simp [OAuthTx.clockNow, and_comm]

@[simp] theorem runs_oauthNewId_iff {id : Uuid} :
    Runs OAuthTx.newId w id w' ↔ id = w.peek.id ∧ w' = w.tick := by
  simp [OAuthTx.newId, and_comm]

@[simp] theorem runs_checked_iff {α : Type} {value : Except DomainError α} {a : α} :
    Runs (OAuthTx.checked value) w a w' ↔ value = .ok a ∧ w' = w := by
  cases value <;> simp [OAuthTx.checked, Except.mapError, eq_comm]

@[simp] theorem runs_protocol_iff {α : Type} {value : Except OAuthError α} {a : α} :
    Runs (OAuthTx.protocol value) w a w' ↔ value = .ok a ∧ w' = w := by
  cases value <;> simp [OAuthTx.protocol, Except.mapError, eq_comm]

theorem wanes_draw : Preserves Wanes (OAuthTx.clockNow) := by
  intro w a w' h
  obtain ⟨-, rfl⟩ := runs_oauthClockNow_iff.mp h
  exact .refl _

theorem wanes_revokeWhere (p : OAuthAccessToken → Bool) :
    Preserves Wanes (OAuthAccessTokenRepository.revokeWhere p) :=
  wanes_draw.bind fun _ => wanes_modifyAccess _ fun _ => ⟨rfl, fun _ => rfl⟩

theorem wanes_revokeFamily (familyId : Uuid) :
    Preserves Wanes (OAuthRefreshTokenRepository.revokeFamily familyId) :=
  wanes_draw.bind fun now => wanes_revokeRefresh (fun family _ => family == familyId) now

theorem wanes_updateLastUsed (id : Uuid) (at' : Instant) :
    Preserves Wanes (OAuthAccessTokenRepository.updateLastUsed id at') :=
  wanes_modifyAccess _ fun _ => ⟨rfl, fun h => h⟩

theorem wanes_clockNow : Preserves Wanes (clockNow : Tx Instant) := by
  intro w a w' h
  obtain ⟨-, rfl⟩ := runs_clockNow_iff.mp h
  exact .refl _

theorem wanes_revokeUserCredentials (userId : Uuid) (kept : Option String) :
    Preserves Wanes (UserAdminService.revokeUserCredentials userId kept) := by
  have hsessions : Confined [.sessions] (SessionRepository.revokeOthersForUser userId kept) :=
    confined_deleteWhere fun _ => List.mem_cons_self ..
  refine (wanes_confined hsessions (by decide)).bind fun _ => ?_
  refine (wanes_deleteCodes _).bind fun _ => ?_
  refine (wanes_clockNow.bind fun _ => wanes_modifyAccess _ ?_).bind fun _ => ?_
  · exact fun _ => ⟨rfl, fun _ => rfl⟩
  · exact wanes_clockNow.bind fun now => wanes_revokeRefresh (fun _ user => user == userId) now

theorem wanes_updateAccount (user : User) :
    Preserves Wanes (UserAccountRepository.update user) := by
  have hconfined : Confined [.users] (UserAccountRepository.update user) :=
    confined_modifyRow fun _ => List.mem_cons_self ..
  exact wanes_confined hconfined (by decide)

theorem wanes_setPassword (userId : Uuid) (hash : String) (must : Bool) :
    Preserves Wanes (UserAccountRepository.setPassword userId hash must) := by
  have hconfined : Confined [.users] (UserAccountRepository.setPassword userId hash must) :=
    confined_modifyRow fun _ => List.mem_cons_self ..
  exact wanes_confined hconfined (by decide)

/-- A unit of work whose accepted runs grant nothing grants nothing. -/
theorem wanes_transact {α : Type} {p : Program Store Write ε Tick α} (hp : Preserves Wanes p)
    (w : World Store Tick) : Wanes w.store (transact p w).2.store := by
  rcases ht : transact p w with ⟨e | a, w'⟩
  · rw [transact_error ht]
    exact .refl _
  · exact hp w a w' (transact_ok_iff.mp ht)

end statements

section accounts

theorem wanes_accountWrites (userId : Uuid) (input : UpdateUserInput) (found : User)
    (temp : TempPassword) : Preserves Wanes (accountWrites userId input found temp) := by
  have hpassword := wanes_setPassword userId temp.hash true
  have hrevoke := wanes_revokeUserCredentials userId none
  have hpure : ∀ a : User × Option TempPassword, Preserves Wanes (pure a : Tx _) :=
    fun a => .of_readsOnly (Program.readsOnly_pure a)
  unfold accountWrites
  refine (wanes_updateAccount _).bind fun _ => ?_
  split_ifs
  · exact hpassword.bind fun _ => hrevoke.bind fun _ => hpure _
  · exact hpassword.bind fun _ => hpure _
  · exact hrevoke.bind fun _ => hpure _
  · exact hpure _

theorem wanes_updateUser (deps : UserAdminServiceDeps) (actor : Actor) (userId : Uuid)
    (raw : UpdateUserInput) (temp : TempPassword) :
    Preserves Wanes (UserAdminService.update deps actor userId raw temp) := by
  rw [updateUser_eq]
  exact (Preserves.of_readsOnly (readsOnly_accountChecks _ _ _ _)).bind fun _ =>
    wanes_accountWrites _ _ _ _

theorem wanes_replacePassword (userId : Uuid) (checkedHash newHash keepHash : String) :
    Preserves Wanes (AuthService.replacePassword userId checkedHash newHash keepHash) := by
  have hensure : ∀ (b : Bool) (e : DomainError), Preserves Wanes (.ensure b e : Tx Unit) :=
    fun b e => .of_readsOnly (Program.readsOnly_ensure b e)
  unfold AuthService.replacePassword
  refine (Preserves.of_readsOnly (Program.readsOnly_read _)).bind fun _ => ?_
  refine (Preserves.of_readsOnly (Program.readsOnly_read _)).bind fun _ => ?_
  refine (hensure _ _).bind fun _ => ?_
  refine (Preserves.of_readsOnly (Program.readsOnly_require _ _)).bind fun _ => ?_
  refine (hensure _ _).bind fun _ => wanes_clockNow.bind fun _ => ?_
  refine (hensure _ _).bind fun _ => (wanes_setPassword _ _ _).bind fun _ => ?_
  exact wanes_revokeUserCredentials _ _

theorem wanes_resetExisting (existing : User) (temp : TempPassword) :
    Preserves Wanes (CreateAdmin.resetExisting existing temp) := by
  refine (wanes_updateAccount _).bind fun _ => (wanes_setPassword _ _ _).bind fun _ => ?_
  refine (wanes_revokeUserCredentials _ _).bind fun _ => ?_
  exact .of_readsOnly (Program.readsOnly_pure _)

theorem wanes_insertFresh (email : String) (temp : TempPassword) :
    Preserves Wanes (CreateAdmin.insertFresh email temp) := by
  have hconfined : Confined [.users] (CreateAdmin.insertFresh email temp) := by
    refine confined_bind confined_newId fun _ => confined_bind confined_clockNow fun _ => ?_
    exact confined_bind (confined_insertRow (List.mem_cons_self ..)) fun _ => confined_pure _
  exact wanes_confined hconfined (by decide)

theorem wanes_promote (email : String) (temp : TempPassword) (w : World Store Tick) :
    Wanes w.store (CreateAdmin.promote email temp w).2.store := by
  have hfind := wanes_transact (.of_readsOnly (Program.readsOnly_read _) :
    Preserves Wanes (UserAccountRepository.findByEmail email)) w
  rw [CreateAdmin.promote]
  rcases hf : transact (UserAccountRepository.findByEmail email) w with ⟨e | found, w₁⟩
  · rwa [hf] at hfind
  rw [hf] at hfind
  refine hfind.trans ?_
  cases found with
  | some existing => exact wanes_transact (wanes_resetExisting _ _) w₁
  | none => exact wanes_transact (wanes_insertFresh _ _) w₁

theorem wanes_createAdminUser [Platform] (systemUserId : Uuid) (email : String) (force : Bool)
    (temp : TempPassword) (w : World Store Tick) :
    Wanes w.store (CreateAdmin.createAdminUser systemUserId email force temp w).2.store := by
  have hlist := wanes_transact (.of_readsOnly (Program.readsOnly_read _) :
    Preserves Wanes UserAccountRepository.list) w
  rw [CreateAdmin.createAdminUser]
  rcases hl : transact UserAccountRepository.list w with ⟨e | users, w₁⟩
  · rwa [hl] at hlist
  rw [hl] at hlist
  dsimp only
  split
  · exact hlist
  · exact hlist.trans (wanes_promote _ _ w₁)

end accounts

section operations

variable {w : World Store Tick}

theorem wanes_discard {α : Type} {p : Tx α} (hp : Preserves Wanes p) :
    Preserves Wanes (discard p) := by
  intro w u w' h
  obtain ⟨a, h⟩ := runs_discard_iff.mp h
  exact hp w a w' h

theorem wanes_deleteLocation (boardId : Uuid) (actor : Actor) (locationId : Uuid) :
    Preserves Wanes (LocationAdminService.delete boardId actor locationId) := by
  refine (Preserves.of_readsOnly (readsOnly_ensureGranted _ _ _)).bind fun _ => ?_
  intro w u w' h
  obtain ⟨-, hunlocated⟩ := runs_deleteLocation h
  refine .of_sameTables fun name hname => hunlocated.frame name ?_ ?_
  all_goals
    rintro rfl
    exact absurd hname (by decide)

variable [Platform]

theorem wanes_administration (op : AdministrationOperation) : Preserves Wanes op.body := by
  cases op with
  | getPolicy boardId => exact wanes_discard (.of_readsOnly (readsOnly_getActivePolicy _))
  | applyPolicy boardId actor document =>
    exact wanes_discard (wanes_confined (confined_applyPolicy _ _ _) (by decide))
  | createBoard actor raw => exact wanes_discard (wanes_confined (confined_createBoard _ _) (by decide))
  | updateBoard actor boardId raw =>
    exact wanes_discard (wanes_confined (confined_updateBoard _ _ _) (by decide))
  | removeBoard actor boardId => exact wanes_confined (confined_removeBoard _ _) (by decide)
  | setPreference actor boardId => exact wanes_confined (confined_setPreference _ _) (by decide)
  | saveGroup actor groupId raw =>
    exact wanes_discard (wanes_confined (confined_saveGroup _ _ _) (by decide))
  | removeGroup actor groupId => exact wanes_confined (confined_removeGroup _ _) (by decide)
  | createLane boardId actor raw =>
    exact wanes_discard (wanes_confined (confined_createLane _ _ _) (by decide))
  | updateLane boardId actor laneId raw =>
    exact wanes_discard (wanes_confined (confined_updateLane _ _ _ _) (by decide))
  | removeLane boardId actor laneId => exact wanes_confined (confined_removeLane _ _ _) (by decide)
  | reorderLanes boardId actor raw =>
    exact wanes_discard (wanes_confined (confined_reorderLanes _ _ _) (by decide))
  | createLocation boardId actor raw =>
    exact wanes_discard (wanes_confined (confined_createLocation _ _ _) (by decide))
  | updateLocation boardId actor locationId raw =>
    exact wanes_discard (wanes_confined (confined_updateLocation _ _ _ _) (by decide))
  | deleteLocation boardId actor locationId => exact wanes_deleteLocation _ _ _
  | createUser deps actor raw temp =>
    exact wanes_discard (wanes_confined (confined_createUser _ _ _ _) (by decide))
  | updateUser deps actor userId raw temp => exact wanes_discard (wanes_updateUser _ _ _ _ _)

/-- No operation outside the authorization server grants anything. -/
theorem wanes_operation (op : Operation) : Wanes w.store (Application.step w op).store := by
  have hnames : ∀ name ∈ grantTables, name ∉ cardTables := by decide
  cases op with
  | card op => exact .of_sameTables fun name hname => card_sameTable op (hnames name hname)
  | collaboration op =>
    exact .of_sameTables fun name hname => collaboration_sameTable op (hnames name hname)
  | administration op => exact wanes_transact (wanes_administration op) w

end operations

section draws

/-- The environment is as it was, and has been drawn from, if at all. -/
structure Advances (w w' : World Store Tick) : Prop where
  inputs : w'.inputs = w.inputs
  drawn : w.drawn ≤ w'.drawn

variable {w : World Store Tick}

theorem Advances.refl (w : World Store Tick) : Advances w w := ⟨rfl, le_rfl⟩

theorem Advances.trans {w₁ w₂ w₃ : World Store Tick} (h : Advances w₁ w₂) (h' : Advances w₂ w₃) :
    Advances w₁ w₃ :=
  ⟨h'.inputs.trans h.inputs, h.drawn.trans h'.drawn⟩

theorem advances_transact {ε α : Type} (p : Program Store Write ε Tick α)
    (w : World Store Tick) : Advances w (transact p w).2 :=
  ⟨(transact_inputs p w).1, (transact_inputs p w).2⟩

theorem advances_attempts {α : Type} (attempts : Attempts α) :
    Advances w (attempts.perform w).2 := by
  rcases attempt_cases (Prod.eta (attempts.perform w)).symm with
    ⟨e, -, -, hinputs, hdrawn⟩ | ⟨q, -, a, w₁, -, -, hinputs, hdrawn, hrun⟩
  · exact ⟨hinputs, hdrawn⟩
  · exact ⟨hrun.inputs.trans hinputs, hdrawn.trans hrun.drawn_le⟩

theorem advances_archiveEach (actor : Actor) (cutoffIso : Instant) (candidates : List Card)
    (archived : ℕ) : Advances w (CardService.archiveEach actor cutoffIso candidates archived w).2 := by
  induction candidates generalizing archived w with
  | nil => exact .refl w
  | cons candidate candidates ih =>
    have hfirst := advances_transact (CardService.archiveExpiredBody actor cutoffIso candidate) w
    rw [CardService.archiveEach]
    rcases ht : transact (CardService.archiveExpiredBody actor cutoffIso candidate) w with ⟨e | r, w₁⟩
    · rwa [ht] at hfirst
    · rw [ht] at hfirst
      exact hfirst.trans (ih _)

theorem advances_archiveExpired (actor : Actor) :
    Advances w (CardService.archiveExpired actor w).2 := by
  have hreads := advances_transact CardService.expiredCandidates w
  rw [CardService.archiveExpired]
  rcases ht : transact CardService.expiredCandidates w with ⟨e | ⟨now, candidates⟩, w₁⟩
  · rwa [ht] at hreads
  · rw [ht] at hreads
    exact hreads.trans (advances_archiveEach _ _ _ _)

theorem advances_promote (email : String) (temp : TempPassword) (w : World Store Tick) :
    Advances w (CreateAdmin.promote email temp w).2 := by
  have hfind := advances_transact (UserAccountRepository.findByEmail email) w
  rw [CreateAdmin.promote]
  rcases hf : transact (UserAccountRepository.findByEmail email) w with ⟨e | found, w₁⟩
  · rwa [hf] at hfind
  rw [hf] at hfind
  refine hfind.trans ?_
  cases found with
  | some existing => exact advances_transact _ w₁
  | none => exact advances_transact _ w₁

theorem advances_createAdminUser [Platform] (systemUserId : Uuid) (email : String) (force : Bool)
    (temp : TempPassword) (w : World Store Tick) :
    Advances w (CreateAdmin.createAdminUser systemUserId email force temp w).2 := by
  have hlist := advances_transact UserAccountRepository.list w
  rw [CreateAdmin.createAdminUser]
  rcases hl : transact UserAccountRepository.list w with ⟨e | users, w₁⟩
  · rwa [hl] at hlist
  rw [hl] at hlist
  dsimp only
  split
  · exact hlist
  · exact hlist.trans (advances_promote _ _ w₁)

theorem advances_card [Platform] (op : CardOperation) : Advances w (op.perform w).2 := by
  cases op <;> simp only [CardOperation.perform, respond]
  case archiveExpired actor => exact advances_archiveExpired actor
  all_goals apply advances_attempts

theorem advances_operation [Platform] (op : Operation) : Advances w (Application.step w op) := by
  cases op with
  | card op => exact advances_card op
  | collaboration op => exact advances_transact op.body w
  | administration op => exact advances_transact op.body w

theorem advances_authenticate [OAuthPlatform] (config : OAuthConfig) (clients : List OAuthClient)
    (rawToken : String) (now : Instant) :
    Advances w (McpAuth.authenticateAccessToken config clients rawToken now w).2 := by
  have hresolve := advances_transact (McpAuth.resolve (AuthPlatform.sha256 rawToken)) w
  rw [McpAuth.authenticateAccessToken]
  rcases ht : transact (McpAuth.resolve (AuthPlatform.sha256 rawToken)) w with ⟨_ | found, w₁⟩
  · rwa [ht] at hresolve
  rw [ht] at hresolve
  rcases found with _ | ⟨token, _ | user⟩
  · exact hresolve
  · exact hresolve
  · dsimp only
    split_ifs
    · exact hresolve.trans (advances_transact _ w₁)
    · exact hresolve
    · exact hresolve

end draws

end AiKanban.Effects.Grants
