import AiKanban.Application.Concurrency
import AiKanban.Effects.RoleHolders
import AiKanban.Invariants.Administrators

/-!
# Two demotions at once

Two updates that each take an administrator away, run as concurrent transactions: each counts
the other administrators in rows it does not write.
-/
namespace AiKanban.Invariants

open Domain Db Policy Relational Services Server Transactions
open Application Effects Transitions

/-- The document an admin surface reads for a board. -/
def activePolicyOf (s : Store) (boardId : Uuid) : Option PolicyDocument :=
  (PolicyRepository.newest s boardId).bind fun own =>
    (globalPolicyOf s).map fun global => { own.config with roles := global.config.roles }

/-- A valid, permitted update that takes an active administrator's capability away. -/
def Demotes (deps : UserAdminServiceDeps) (actor : Actor) (userId : Uuid) (raw : UpdateUserInput)
    (s : Store) : Prop :=
  raw.parse.isOk = true ∧ userId ≠ deps.systemUserId ∧
    ∃ policy ∈ activePolicyOf s deps.boardId,
      ensurePermission actor .manageUsers policy = .ok () ∧
      (∀ role ∈ raw.role, UserAdminService.roleExists policy role = true) ∧
      (∃ row ∈ s.users.rows, row.user.id = userId ∧ row.user.isActive = true ∧
        row.user.role ∈ UserAdminService.manageUsersRoleKeys policy) ∧
      (raw.isActive = some false ∨
        ∃ role ∈ raw.role, role ∉ UserAdminService.manageUsersRoleKeys policy)

instance (deps : UserAdminServiceDeps) (actor : Actor) (userId : Uuid) (raw : UpdateUserInput)
    (s : Store) : Decidable (Demotes deps actor userId raw s) := by
  unfold Demotes
  infer_instance

/-- An administrator other than the two, and other than the automation user. -/
def ThirdAdministrator (systemUserId userId₁ userId₂ : Uuid) (s : Store) : Prop :=
  ∃ policy ∈ globalPolicyOf s, ∃ row ∈ s.users.rows, row.user.isActive = true ∧
    row.user.id ≠ systemUserId ∧ row.user.id ≠ userId₁ ∧ row.user.id ≠ userId₂ ∧
    row.user.role ∈ UserAdminService.manageUsersRoleKeys policy.config

section writes

/-- The writes of an update: the one account, and its credentials. -/
def AccountWrite (userId : Uuid) : Write → Prop
  | .users (.update _ next) => next.user.id = userId
  | .sessions _ | .oauthAuthorizationCodes _ | .oauthAccessTokens _ | .oauthRefreshTokens _ => True
  | _ => False

theorem AccountWrite.tableName {userId : Uuid} {x : Write} (h : AccountWrite userId x) :
    x.tableName ∈ credentialTables := by
  cases x <;> first | exact h.elim | exact List.mem_of_elem_eq_true rfl

theorem writes_revokeUserCredentials (userId : Uuid) (kept : Option String) (accountId : Uuid) :
    (UserAdminService.revokeUserCredentials userId kept).Writes (AccountWrite accountId) := by
  refine (confined_revokeUserCredentials userId kept).writes.mono fun x hx => ?_
  cases x <;> trivial

theorem writes_accountWrites {userId : Uuid} {found : User} (hfound : found.id = userId)
    (input : UpdateUserInput) (temp : TempPassword) :
    (accountWrites userId input found temp).Writes (AccountWrite userId) := by
  have hpassword : (UserAccountRepository.setPassword userId temp.hash true).Writes
      (AccountWrite userId) := writes_modifyRow fun row hrow => hrow
  have hrevoke := writes_revokeUserCredentials userId none userId
  refine Program.Writes.bind (writes_modifyRow fun _ _ => hfound) fun _ => ?_
  split_ifs
  · exact hpassword.bind fun _ => hrevoke.bind fun _ => Program.writes_pure _
  · exact hpassword.bind fun _ => Program.writes_pure _
  · exact hrevoke.bind fun _ => Program.writes_pure _
  · exact Program.writes_pure _

theorem writes_updateUser (deps : UserAdminServiceDeps) (actor : Actor) (userId : Uuid)
    (raw : UpdateUserInput) (temp : TempPassword) :
    (UserAdminService.update deps actor userId raw temp).Writes (AccountWrite userId) := by
  unfold UserAdminService.update
  refine (Program.writes_ofExcept _).bind fun input => ?_
  refine (readsOnly_activePolicy _).writes.bind fun policy => ?_
  refine (Program.writes_ofExcept _).bind fun _ => ?_
  refine (readsOnly_forPresent fun _ => Program.readsOnly_ensure _ _).writes.bind fun _ => ?_
  refine Program.writes_read_bind fun v => Program.writes_require_bind fun user huser => ?_
  refine (readsOnly_ensureOtherAdmin _ _ _ _).writes.bind fun _ => ?_
  obtain ⟨row, hrow, rfl⟩ := Option.map_eq_some_iff.mp huser
  exact writes_accountWrites (Table.find?_key hrow) input temp

theorem mem_users_replay {userId : Uuid} {log : List Write} (hlog : ∀ x ∈ log, AccountWrite userId x)
    {s : Store} {row : UserCredentials} (hrow : row ∈ s.users.rows) (hid : row.user.id ≠ userId) :
    row ∈ (replay s log).users.rows := by
  induction log generalizing s with
  | nil => exact hrow
  | cons x log ih =>
    refine ih (fun y hy => hlog y (List.mem_cons_of_mem x hy)) ?_
    have hx : AccountWrite userId x := hlog x List.mem_cons_self
    cases x with
    | users write =>
      cases write with
      | update base next =>
        obtain rfl : next.user.id = userId := hx
        exact Table.mem_update_of_ne hrow hid
      | insert row => exact hx.elim
      | delete row => exact hx.elim
    | _ => exact hrow

theorem globalPolicyOf_replay {userId : Uuid} {log : List Write}
    (hlog : ∀ x ∈ log, AccountWrite userId x) (s : Store) :
    globalPolicyOf (replay s log) = globalPolicyOf s := by
  have hframe : ∀ name, name ∉ credentialTables → s.SameTable name (replay s log) :=
    fun name hname => sameTable_replay _ fun x hx heq => hname (heq ▸ (hlog x hx).tableName)
  have hboards : (replay s log).boards = s.boards := hframe .boards (by decide)
  exact globalPolicyOf_congr (by rw [hboards]) fun _ _ =>
    newest_congr (hframe .boardPolicies (by decide)) _

end writes

section schedules

variable {deps : UserAdminServiceDeps} {actor₁ actor₂ : Actor} {userId₁ userId₂ : Uuid}
  {raw₁ raw₂ : UpdateUserInput} {s : Store}

/-- The two updates as concurrent calls. -/
def demotions (deps : UserAdminServiceDeps) (actor₁ actor₂ : Actor) (userId₁ userId₂ : Uuid)
    (raw₁ raw₂ : UpdateUserInput) (temp₁ temp₂ : TempPassword) (s : Store) (inputs : ℕ → Tick) :
    PgConfig Bool (User × Option TempPassword) :=
  concurrently { first := UserAdminService.update deps actor₁ userId₁ raw₁ temp₁ }
    { first := UserAdminService.update deps actor₂ userId₂ raw₂ temp₂ } s inputs

/-- Whatever the schedule, the policy stays and every third account is as it was. -/
theorem demotions_keep (temp₁ temp₂ : TempPassword) (inputs : ℕ → Tick) (schedule : List Bool) :
    let c := (demotions deps actor₁ actor₂ userId₁ userId₂ raw₁ raw₂ temp₁ temp₂ s inputs).run
      schedule
    globalPolicyOf c.committed = globalPolicyOf s ∧
      ∀ row ∈ s.users.rows, row.user.id ≠ userId₁ → row.user.id ≠ userId₂ →
        row ∈ c.committed.users.rows := by
  intro c
  let W : Bool → Write → Prop := fun k => AccountWrite (if k then userId₂ else userId₁)
  let I : Store → Prop := fun t => globalPolicyOf t = globalPolicyOf s ∧
    ∀ row ∈ s.users.rows, row.user.id ≠ userId₁ → row.user.id ≠ userId₂ → row ∈ t.users.rows
  have hreplay : ∀ k t log, (∀ x ∈ log, W k x) → I t → I (replay t log) := by
    rintro k t log hlog ⟨hpolicy, hrows⟩
    refine ⟨(globalPolicyOf_replay hlog t).trans hpolicy, fun row hrow h₁ h₂ => ?_⟩
    exact mem_users_replay hlog (hrows row hrow h₁ h₂) (by cases k <;> simpa)
  refine Config.run_writes (W := W) (I := I) hreplay (fun k => ?_)
    ⟨rfl, fun row hrow _ _ => hrow⟩ schedule
  cases k with
  | false => exact fun p hp => (List.mem_singleton.mp hp) ▸ writes_updateUser ..
  | true => exact fun p hp => (List.mem_singleton.mp hp) ▸ writes_updateUser ..

theorem activePolicy_runs {w : World Store Tick} {boardId : Uuid} {policy : PolicyDocument}
    (h : activePolicyOf w.store boardId = some policy) : Runs (activePolicy boardId) w policy w := by
  obtain ⟨own, hown, h⟩ := Option.bind_eq_some_iff.mp h
  obtain ⟨global, hglobal, rfl⟩ := Option.map_eq_some_iff.mp h
  obtain ⟨board, hboard, hnewest⟩ := Option.bind_eq_some_iff.mp hglobal
  simp [activePolicy, globalPolicy, BoardRepository.getDefault, PolicyRepository.getActive, hown,
    hboard, hnewest]

theorem activePolicyOf_roles {boardId : Uuid} {policy : PolicyDocument}
    (h : activePolicyOf s boardId = some policy) :
    ∃ global, globalPolicyOf s = some global ∧ policy.roles = global.config.roles := by
  obtain ⟨own, -, h⟩ := Option.bind_eq_some_iff.mp h
  obtain ⟨global, hglobal, rfl⟩ := Option.map_eq_some_iff.mp h
  exact ⟨global, hglobal, rfl⟩

theorem manageUsersRoleKeys_congr {p q : PolicyDocument} (h : p.roles = q.roles) :
    UserAdminService.manageUsersRoleKeys p = UserAdminService.manageUsersRoleKeys q := by
  simp [UserAdminService.manageUsersRoleKeys, h]

/-- Alone, with another administrator there, the update passes its checks. -/
theorem accountChecks_runs {w : World Store Tick} (hw : w.store = s)
    (h : Demotes deps actor₁ userId₁ raw₁ s) (hother : Demotes deps actor₂ userId₂ raw₂ s)
    (hne : userId₁ ≠ userId₂) :
    ∃ input found, input.role = raw₁.role ∧ input.isActive = raw₁.isActive ∧
      s.users.find? userId₁ = some found ∧
      Runs (accountChecks deps actor₁ userId₁ raw₁) w (input, found.user) w := by
  subst hw
  obtain ⟨hparse, -, policy, hpolicy, hgranted, hroles, ⟨row, hrow, hid, -⟩, -⟩ := h
  obtain ⟨input, hinput⟩ : ∃ input, raw₁.parse = .ok input := by
    cases hraw : raw₁.parse with
    | ok input => exact ⟨input, rfl⟩
    | error e => simp [hraw, Except.isOk, Except.toBool] at hparse
  obtain ⟨-, hperson, policy', hpolicy', -, -, ⟨other, hotherRow, hotherId, hlive, hadmin⟩, -⟩ := hother
  obtain rfl : policy = policy' := Option.some.inj (hpolicy.symm.trans hpolicy')
  obtain ⟨hrole, hactive⟩ := parse_updateUser hinput
  have hfound : w.store.users.find? userId₁ = some row := Table.find?_eq_some_iff.mpr ⟨hrow, hid⟩
  refine ⟨input, row, hrole, hactive, hfound, ?_⟩
  have hchecked : Runs (CardService.forPresent input.role fun role =>
      Program.ensure (UserAdminService.roleExists policy role) (UserAdminService.unknownRole role))
      w () w := by
    cases hinputRole : input.role with
    | none => exact runs_pure_iff.mpr ⟨rfl, rfl⟩
    | some role => exact runs_ensure_iff.mpr ⟨hroles role (by rw [← hrole, hinputRole]; rfl), rfl⟩
  have hguard : Runs (UserAdminService.ensureOtherAdmin deps
      (UserAdminService.manageUsersRoleKeys policy) row.user input) w () w := by
    unfold UserAdminService.ensureOtherAdmin
    split_ifs
    · simp only [UserAccountRepository.list, runs_bind_iff, runs_read_iff, runs_ensure_iff]
      refine ⟨_, w, ⟨rfl, rfl⟩, List.any_eq_true.mpr ⟨other.user, ?_, ?_⟩, rfl⟩
      · simp only [List.mem_reverse, mem_newestFirst]
        exact List.mem_map_of_mem hotherRow
      · simp [hadmin, hlive, hotherId, hid, hperson, hne.symm]
    · exact runs_pure_iff.mpr ⟨rfl, rfl⟩
  simp only [accountChecks, loadActivePolicy, UserRepository.findById, runs_bind_iff,
    runs_ofExcept_iff, runs_read_iff, runs_requireFound_iff, runs_pure_iff]
  refine ⟨input, w, ⟨hinput, rfl⟩, policy, w, activePolicy_runs hpolicy, (), w, ⟨hgranted, rfl⟩,
    (), w, hchecked, _, w, ⟨rfl, rfl⟩, row.user, w, ⟨by rw [hfound]; rfl, rfl⟩, (), w, hguard,
    rfl, rfl⟩

/-- A session may pass all its checks before the other has written anything. -/
theorem reaches_accountWrites {c : PgConfig Bool (User × Option TempPassword)} {k : Bool}
    {temp : TempPassword}
    (hk : c.sessions k = .ready [UserAdminService.update deps actor₁ userId₁ raw₁ temp])
    (h : Demotes deps actor₁ userId₁ raw₁ c.committed)
    (hother : Demotes deps actor₂ userId₂ raw₂ c.committed) (hne : userId₁ ≠ userId₂) :
    ∃ input found, input.role = raw₁.role ∧ input.isActive = raw₁.isActive ∧
      c.committed.users.find? userId₁ = some found ∧
      Config.Reaches k c (c.set k (.active (accountWrites userId₁ input found.user temp) [] [])) := by
  have hbegin := Config.step_begin hk
  have hk' : (c.step k).sessions k = .active ((accountChecks deps actor₁ userId₁ raw₁).bind
      fun checked => accountWrites userId₁ checked.1 checked.2 temp) [] [] := by
    rw [hbegin, Config.set_sessions_self, updateUser_eq]
    rfl
  have hworld : ((c.step k).world []).store = c.committed := by
    rw [hbegin]
    rfl
  obtain ⟨input, found, hrole, hactive, hfound, hchecks⟩ := accountChecks_runs hworld h hother hne
  have hreads := Config.reaches_reads hk' (readsOnly_accountChecks ..) hchecks
  refine ⟨input, found, hrole, hactive, hfound, (Config.reaches_step k c).trans ?_⟩
  rw [hbegin, Config.set_set] at hreads
  rwa [hbegin]

/-- An update that demotes leaves its account without the capability. -/
theorem Demotes.amended (h : Demotes deps actor₁ userId₁ raw₁ s) {global : BoardPolicy}
    (hglobal : globalPolicyOf s = some global) {u : Standing} (hid : u.id = userId₁) (hactive : (amend userId₁ raw₁ u).isActive = true) :
    (amend userId₁ raw₁ u).role ∉ UserAdminService.manageUsersRoleKeys global.config := by
  obtain ⟨-, -, policy, hpolicy, -, -, -, hloses⟩ := h
  obtain ⟨global', hglobal', hroles⟩ := activePolicyOf_roles hpolicy
  obtain rfl : global = global' := Option.some.inj (hglobal.symm.trans hglobal')
  rw [← manageUsersRoleKeys_congr hroles]
  simp only [amend, hid, if_true] at hactive ⊢
  rcases hloses with hoff | ⟨role, hrole, hnot⟩
  · simp [hoff] at hactive
  · rw [Option.mem_def.mp hrole]
    exact hnot

/-- Both pass their checks, then both commit: the two accounts lose the capability. -/
theorem demotions_skew {temp₁ temp₂ : TempPassword} (inputs : ℕ → Tick)
    (h₁ : Demotes deps actor₁ userId₁ raw₁ s) (h₂ : Demotes deps actor₂ userId₂ raw₂ s)
    (hne : userId₁ ≠ userId₂) :
    ∃ schedule, let c := (demotions deps actor₁ actor₂ userId₁ userId₂ raw₁ raw₂ temp₁ temp₂ s
        inputs).run schedule
      (c.sessions false).isDone = true ∧ (c.sessions true).isDone = true ∧
      standings c.committed = ((standings s).map (amend userId₁ raw₁)).map (amend userId₂ raw₂) := by
  set c₀ := demotions deps actor₁ actor₂ userId₁ userId₂ raw₁ raw₂ temp₁ temp₂ s inputs with hc₀
  have hready₁ : c₀.sessions false = .ready [UserAdminService.update deps actor₁ userId₁ raw₁ temp₁] :=
    rfl
  obtain ⟨input₁, found₁, hrole₁, hactive₁, hfound₁, hreach₁⟩ :=
    reaches_accountWrites hready₁ h₁ h₂ hne
  set c₁ := c₀.set false (.active (accountWrites userId₁ input₁ found₁.user temp₁) [] []) with hc₁
  have hready₂ : c₁.sessions true = .ready [UserAdminService.update deps actor₂ userId₂ raw₂ temp₂] :=
    Config.set_sessions_ne _ (by decide) _
  obtain ⟨input₂, found₂, hrole₂, hactive₂, hfound₂, hreach₂⟩ :=
    reaches_accountWrites hready₂ h₂ h₁ hne.symm
  set c₂ := c₁.set true (.active (accountWrites userId₂ input₂ found₂.user temp₂) [] []) with hc₂
  have hactive₁' : c₂.sessions false =
      .active (accountWrites userId₁ input₁ found₁.user temp₁) [] [] := by
    rw [hc₂, Config.set_sessions_ne _ (by decide), hc₁, Config.set_sessions_self]
  have hactive₂' : c₂.sessions true =
      .active (accountWrites userId₂ input₂ found₂.user temp₂) [] [] := Config.set_sessions_self ..
  obtain ⟨r₁, w₁, hruns₁⟩ := accountWrites_runs (w := c₂.world []) input₁ temp₁ hfound₁
  obtain ⟨log₁, hcommit₁⟩ := Config.reaches_commit hactive₁' (by simp [hactive₂', Session.held]) hruns₁
  set c₃ : PgConfig Bool (User × Option TempPassword) :=
    { c₂.set false (.done (.ok r₁) log₁) with committed := w₁.store, drawn := w₁.drawn } with hc₃
  have hdone₁ : c₃.sessions false = .done (.ok r₁) log₁ :=
    Config.set_sessions_self c₂ false (.done (.ok r₁) log₁)
  have hactive₃ : c₃.sessions true =
      .active (accountWrites userId₂ input₂ found₂.user temp₂) [] [] :=
    (Config.set_sessions_ne c₂ Bool.false_ne_true.symm (.done (.ok r₁) log₁)).trans hactive₂'
  -- the first transaction wrote its own account only
  have hfound₃ : w₁.store.users.find? userId₂ = some found₂ := by
    have hid₁ : found₁.user.id = userId₁ := Table.find?_key hfound₁
    have hid₂ : found₂.user.id = userId₂ := Table.find?_key hfound₂
    obtain ⟨log, hlog, hstore⟩ := hruns₁.of_writes (writes_accountWrites hid₁ input₁ temp₁)
    rw [hstore]
    refine Table.find?_eq_some_iff.mpr ⟨mem_users_replay hlog ?_ ?_, hid₂⟩
    · exact Table.mem_of_find? hfound₂
    · rw [hid₂]
      exact hne.symm
  obtain ⟨r₂, w₂, hruns₂⟩ := accountWrites_runs (w := c₃.world []) input₂ temp₂ hfound₃
  obtain ⟨log₂, hcommit₂⟩ := Config.reaches_commit hactive₃ (by simp [hdone₁, Session.held]) hruns₂
  obtain ⟨n₁, hn₁⟩ := hreach₁
  obtain ⟨n₂, hn₂⟩ := hreach₂
  obtain ⟨n₃, hn₃⟩ := hcommit₁
  obtain ⟨n₄, hn₄⟩ := hcommit₂
  refine ⟨List.replicate n₁ false ++ (List.replicate n₂ true ++ (List.replicate n₃ false ++
    List.replicate n₄ true)), ?_⟩
  simp only [Config.run_append, hn₁, hn₂, hn₃, hn₄]
  refine ⟨?_, ?_, ?_⟩
  · simp [Config.set, hdone₁, Session.isDone]
  · simp [Config.set, Session.isDone]
  · have hfirst := standings_accountWrites (w := c₂.world []) hfound₁ hruns₁
    have hsecond := standings_accountWrites (w := c₃.world []) hfound₃ hruns₂
    rw [amend_congr hrole₁ hactive₁] at hfirst
    rw [amend_congr hrole₂ hactive₂] at hsecond
    exact hsecond.trans (congrArg _ hfirst)

/-- Every schedule leaves an administrator exactly when there is a third one to begin with. -/
theorem concurrent_demotions (temp₁ temp₂ : TempPassword)
    (h₁ : Demotes deps actor₁ userId₁ raw₁ s) (h₂ : Demotes deps actor₂ userId₂ raw₂ s)
    (hne : userId₁ ≠ userId₂) :
    (∀ (inputs : ℕ → Tick) (schedule : List Bool),
      let c := (demotions deps actor₁ actor₂ userId₁ userId₂ raw₁ raw₂ temp₁ temp₂ s inputs).run
        schedule
      (c.sessions false).isDone = true → (c.sessions true).isDone = true →
        HasAdministrator deps.systemUserId c.committed) ↔
    ThirdAdministrator deps.systemUserId userId₁ userId₂ s := by
  constructor
  · intro hall
    obtain ⟨schedule, hdone₁, hdone₂, hstandings⟩ := demotions_skew sampleTicks h₁ h₂ hne
    obtain ⟨policy, hpolicy, row, hrow, hactive, hperson, hadmin⟩ :=
      hall sampleTicks schedule hdone₁ hdone₂
    obtain ⟨hkept, -⟩ := demotions_keep temp₁ temp₂ sampleTicks schedule
    have hglobal : globalPolicyOf s = some policy := hkept.symm.trans hpolicy
    have hmem : standing row ∈ ((standings s).map (amend userId₁ raw₁)).map (amend userId₂ raw₂) := by
      rw [← hstandings]
      exact List.mem_map_of_mem hrow
    obtain ⟨v, hv, hsecond⟩ := List.mem_map.mp hmem
    obtain ⟨u, hu, rfl⟩ := List.mem_map.mp hv
    have hid : (amend userId₁ raw₁ u).id = u.id := amend_id ..
    by_cases hu₂ : u.id = userId₂
    · have hlost := h₂.amended hglobal (hid.trans hu₂) (by rw [hsecond]; exact hactive)
      rw [hsecond] at hlost
      exact absurd hadmin hlost
    · rw [amend_of_ne (hid ▸ hu₂)] at hsecond
      by_cases hu₁ : u.id = userId₁
      · have hlost := h₁.amended hglobal hu₁ (by rw [hsecond]; exact hactive)
        rw [hsecond] at hlost
        exact absurd hadmin hlost
      · rw [amend_of_ne hu₁] at hsecond
        obtain ⟨old, hold, rfl⟩ := List.mem_map.mp hu
        injection hsecond with hsameId hsameRole hsameActive
        refine ⟨policy, hglobal, old, hold, hsameActive.trans hactive, ?_, hu₁, hu₂, ?_⟩
        · rw [hsameId]
          exact hperson
        · rw [hsameRole]
          exact hadmin
  · rintro ⟨policy, hpolicy, row, hrow, hactive, hperson, hid₁, hid₂, hadmin⟩ inputs schedule c - -
    obtain ⟨hkept, hrows⟩ := demotions_keep temp₁ temp₂ inputs schedule
    exact ⟨policy, hkept.trans hpolicy, row, hrows row hrow hid₁ hid₂, hactive, hperson, hadmin⟩

end schedules

section sample

/-- The staffed board with a second administrator. -/
def staffedTwice : World Store Tick :=
  @roleStep samplePlatform staffed
    (.createUser ⟨101, 102⟩ sampleActor ⟨"bob@example.com", "Bob", "admin"⟩ ⟨"once", "hash"⟩)

/-- Two administrators deactivate each other. -/
def deactivations (s : Store) : PgConfig Bool (User × Option TempPassword) :=
  demotions ⟨101, 102⟩ (userActor 111 "admin") (userActor 113 "admin") 113 111
    { isActive := some false } { isActive := some false } ⟨"once", "hash"⟩ ⟨"once", "hash"⟩ s
    sampleTicks

/-- Both have counted the other before either has written. -/
theorem administrators_skewed : ¬ ∀ (deps : UserAdminServiceDeps) (actor₁ actor₂ : Actor)
    (userId₁ userId₂ : Uuid) (raw₁ raw₂ : UpdateUserInput) (temp₁ temp₂ : TempPassword) (s : Store)
    (inputs : ℕ → Tick) (schedule : List Bool), Demotes deps actor₁ userId₁ raw₁ s →
    Demotes deps actor₂ userId₂ raw₂ s → userId₁ ≠ userId₂ →
    let c := (demotions deps actor₁ actor₂ userId₁ userId₂ raw₁ raw₂ temp₁ temp₂ s inputs).run
      schedule
    (c.sessions false).isDone = true → (c.sessions true).isDone = true →
      HasAdministrator deps.systemUserId c.committed := by
  intro h
  have hlost : ¬ HasAdministrator 102
      ((deactivations staffedTwice.store).run (List.replicate 20 [false, true]).flatten).committed := by
    decide +kernel
  exact hlost (h ⟨101, 102⟩ (userActor 111 "admin") (userActor 113 "admin") 113 111
    { isActive := some false } { isActive := some false } ⟨"once", "hash"⟩ ⟨"once", "hash"⟩
    staffedTwice.store sampleTicks (List.replicate 20 [false, true]).flatten (by decide +kernel)
    (by decide +kernel) (by decide) (by decide +kernel) (by decide +kernel))

theorem concurrent_deactivations :
    Demotes ⟨101, 102⟩ (userActor 111 "admin") 113 { isActive := some false } staffedTwice.store ∧
      Demotes ⟨101, 102⟩ (userActor 113 "admin") 111 { isActive := some false }
        staffedTwice.store ∧
      ((∀ (inputs : ℕ → Tick) (schedule : List Bool),
        let c := (demotions ⟨101, 102⟩ (userActor 111 "admin") (userActor 113 "admin") 113 111
          { isActive := some false } { isActive := some false } ⟨"once", "hash"⟩ ⟨"once", "hash"⟩
          staffedTwice.store inputs).run schedule
        (c.sessions false).isDone = true → (c.sessions true).isDone = true →
          HasAdministrator 102 c.committed) ↔
        ThirdAdministrator 102 113 111 staffedTwice.store) := by
  have h₁ : Demotes ⟨101, 102⟩ (userActor 111 "admin") 113 { isActive := some false }
      staffedTwice.store := by decide +kernel
  have h₂ : Demotes ⟨101, 102⟩ (userActor 113 "admin") 111 { isActive := some false }
      staffedTwice.store := by decide +kernel
  exact ⟨h₁, h₂, concurrent_demotions _ _ h₁ h₂ (by decide)⟩

end sample
end AiKanban.Invariants
