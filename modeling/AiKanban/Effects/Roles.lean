import AiKanban.Application.Authority
import AiKanban.Effects.Steps

/-!
# What each operation does to roles

The roles the global policy defines, the rows that name a role, and how each accepted operation
changes them.
-/
namespace AiKanban.Effects

open Domain Db Policy Relational Services Server Transactions
open Application

/-- The active policy of the default board, which defines the roles. -/
def globalPolicyOf (s : Store) : Option BoardPolicy :=
  (s.boards.rows.find? (·.isDefault)).bind fun board => PolicyRepository.newest s board.id

def globalRoles (s : Store) : List RoleDefinition :=
  ((globalPolicyOf s).map (·.config.roles)).getD []

/-- The role keys the global policy defines. -/
def definedRoles (s : Store) : List Role := (globalRoles s).map (·.key)

@[simp] theorem table_boardPolicies (s : Store) :
    (HasTable.table s : Table BoardPolicy) = s.boardPolicies := rfl
@[simp] theorem table_boardDefaults (s : Store) :
    (HasTable.table s : Table BoardDefault) = s.boardDefaults := rfl
@[simp] theorem table_serviceTokens (s : Store) :
    (HasTable.table s : Table ServiceToken) = s.serviceTokens := rfl

@[simp] theorem table_groups (s : Store) : (HasTable.table s : Table Group) = s.groups := rfl
@[simp] theorem put_groups (s : Store) (t : Table Group) :
    HasTable.put s t = { s with groups := t } := rfl
@[simp] theorem put_boardPolicies (s : Store) (t : Table BoardPolicy) :
    HasTable.put s t = { s with boardPolicies := t } := rfl
@[simp] theorem put_boardDefaults (s : Store) (t : Table BoardDefault) :
    HasTable.put s t = { s with boardDefaults := t } := rfl
@[simp] theorem put_serviceTokens (s : Store) (t : Table ServiceToken) :
    HasTable.put s t = { s with serviceTokens := t } := rfl
@[simp] theorem put_users (s : Store) (t : Table UserCredentials) :
    HasTable.put s t = { s with users := t } := rfl
@[simp] theorem put_boards (s : Store) (t : Table Board) :
    HasTable.put s t = { s with boards := t } := rfl

section policies

variable {w w' : World Store Tick}

theorem runs_globalPolicy {policy : PolicyDocument} (h : Runs globalPolicy w policy w') :
    w' = w ∧ policy.roles = globalRoles w.store := by
  refine ⟨h.of_readsOnly readsOnly_globalPolicy, ?_⟩
  simp only [globalPolicy, BoardRepository.getDefault, PolicyRepository.getActive, runs_bind_iff,
    runs_read_iff, runs_requireFound_iff, runs_pure_iff] at h
  obtain ⟨_, _, ⟨rfl, rfl⟩, board, _, ⟨hboard, rfl⟩, _, _, ⟨rfl, rfl⟩, found, _, ⟨hfound, rfl⟩, rfl, -⟩ := h
  simp [globalRoles, globalPolicyOf, hboard, hfound]

theorem runs_activePolicy_roles {boardId : Uuid} {policy : PolicyDocument}
    (h : Runs (activePolicy boardId) w policy w') :
    w' = w ∧ policy.roles = globalRoles w.store := by
  simp only [activePolicy, PolicyRepository.getActive, runs_bind_iff, runs_read_iff,
    runs_requireFound_iff, runs_pure_iff] at h
  obtain ⟨_, _, ⟨rfl, rfl⟩, own, _, ⟨-, rfl⟩, global, _, hglobal, rfl, rfl⟩ := h
  obtain ⟨rfl, hroles⟩ := runs_globalPolicy hglobal
  exact ⟨rfl, hroles⟩

/-- Another version of a policy is the active one of its board or leaves it as it was. -/
theorem newest_insert {s s' : Store} {version : BoardPolicy}
    (haccepts : s.boardPolicies.accepts version = true)
    (hs : s'.boardPolicies = s.boardPolicies.insert version) (boardId : Uuid) :
    PolicyRepository.newest s' boardId = some version ∧ version.boardId = boardId ∨
      PolicyRepository.newest s' boardId = PolicyRepository.newest s boardId := by
  unfold PolicyRepository.newest
  rw [hs, Table.rows_insert haccepts, List.filter_append]
  by_cases hboard : version.boardId = boardId
  · have hids : ∀ a ∈ s.boardPolicies.rows.filter (·.boardId == boardId),
        ∀ b ∈ s.boardPolicies.rows.filter (·.boardId == boardId), a.id = b.id → a = b :=
      fun a ha b hb hid => Table.eq_of_key (List.mem_filter.mp ha).1 (List.mem_filter.mp hb).1 hid
    have hone : [version].filter (·.boardId == boardId) = [version] := by simp [hboard]
    rw [hone]
    rcases head?_newestFirst_concat hids version with hnew | hold
    · exact .inl ⟨hnew, hboard⟩
    · exact .inr hold
  · have hnone : [version].filter (·.boardId == boardId) = [] := by simp [hboard]
    rw [hnone, List.append_nil]
    exact .inr rfl

theorem runs_insertPolicy {version : BoardPolicy} {u : Unit}
    (h : Runs (PolicyRepository.insert version) w u w') :
    (∀ name, name ≠ .boardPolicies → w.store.SameTable name w'.store) ∧
      ∀ boardId, PolicyRepository.newest w'.store boardId = some version ∧
          version.boardId = boardId ∨
        PolicyRepository.newest w'.store boardId = PolicyRepository.newest w.store boardId := by
  have hconfined : Confined [.boardPolicies] (PolicyRepository.insert version) :=
    confined_insertRow (by simp [HasTable.wrap, Write.tableName])
  have hframe : ∀ name, name ≠ .boardPolicies → w.store.SameTable name w'.store :=
    fun name hname => sameTable_of_confined h hconfined (by simpa using hname)
  simp only [PolicyRepository.insert, runs_insertRow_iff, table_boardPolicies,
    put_boardPolicies] at h
  obtain ⟨haccepts, -, rfl⟩ := h
  exact ⟨hframe, newest_insert haccepts rfl⟩

theorem newest_congr {s s' : Store} (h : s'.boardPolicies = s.boardPolicies) (boardId : Uuid) :
    PolicyRepository.newest s' boardId = PolicyRepository.newest s boardId := by
  unfold PolicyRepository.newest
  rw [h]

end policies

section applying

variable {w w' : World Store Tick}

/-- The defaults of the given roles are dropped. -/
theorem runs_dropDefaults {roles : List RoleDefinition} {u : Unit}
    (h : Runs (ensureEach roles fun role => BoardRepository.setDefault (.role role.key) none) w u w') :
    w'.store.boardPolicies = w.store.boardPolicies ∧
      w'.store.boardDefaults.rows = w.store.boardDefaults.rows.filter fun d =>
        roles.all fun role => d.subject != .role role.key := by
  induction roles generalizing w with
  | nil =>
    obtain ⟨-, rfl⟩ := runs_progPure_iff.mp h
    simp
  | cons role roles ih =>
    obtain ⟨_, w₁, hdrop, hrest⟩ := runs_progBind_iff.mp h
    simp only [BoardRepository.setDefault, runs_deleteWhere_iff, table_boardDefaults,
      put_boardDefaults] at hdrop
    subst hdrop
    obtain ⟨hframe, hrows⟩ := ih hrest
    refine ⟨hframe, hrows.trans ?_⟩
    simp only [World.withStore_store, Table.remove, List.filter_filter, List.all_cons]
    exact List.filter_congr fun d _ => by rw [bne, Bool.and_comm]

/-- No active user, live token or active board names a role that is not kept. -/
structure NoOrphans (s : Store) (kept : List Role) : Prop where
  boards : ∀ board ∈ s.boards.rows, board.archivedAt = none →
    ∀ role ∈ board.allowedRoleKeys, role ∈ kept
  users : ∀ row ∈ s.users.rows, row.user.isActive = true → row.user.role ∈ kept
  tokens : ∀ token ∈ s.serviceTokens.rows, token.revokedAt = none → token.role ∈ kept

theorem runs_ensureNoOrphanedRole {kept : List Role} {u : Unit}
    (h : Runs (PolicyService.ensureNoOrphanedRole kept) w u w') :
    w' = w ∧ NoOrphans w.store kept := by
  refine ⟨h.of_readsOnly (readsOnly_ensureNoOrphanedRole kept), ?_⟩
  simp only [PolicyService.ensureNoOrphanedRole, BoardRepository.list, UserAccountRepository.list,
    ServiceTokenRepository.list, runs_bind_iff, runs_read_iff, runs_ensure_iff] at h
  obtain ⟨_, _, ⟨rfl, rfl⟩, _, _, ⟨hboards, rfl⟩, _, _, ⟨rfl, rfl⟩, h⟩ := h
  split at h
  · exact absurd h not_runs_throw
  · next husers =>
    simp only [runs_bind_iff, runs_read_iff] at h
    obtain ⟨_, _, ⟨rfl, rfl⟩, h⟩ := h
    split at h
    · exact absurd h not_runs_throw
    · next htokens =>
      refine ⟨fun board hboard hactive role hrole => ?_, fun row hrow hactive => ?_,
        fun token htoken hlive => ?_⟩
      · have hall := List.all_eq_true.mp hboards board (by simp [hboard, hactive])
        simpa using List.all_eq_true.mp hall role hrole
      · have hnone := List.find?_eq_none.mp husers row.user (by
          simp only [List.mem_reverse, mem_newestFirst]
          exact List.mem_map.mpr ⟨row, hrow, rfl⟩)
        simpa [hactive] using hnone
      · have hnone := List.find?_eq_none.mp htokens token (by simpa using htoken)
        simpa [hlive] using hnone

variable [Platform]

/-- Parsing a document leaves its roles as they are. -/
theorem parse_roles {document parsed : PolicyDocument} (h : document.parse = .ok parsed) :
    parsed.roles = document.roles := by
  unfold PolicyDocument.parse at h
  iterate 6 obtain ⟨_, -, h⟩ := ok_of_bind h
  obtain ⟨_, -, h⟩ := ok_of_bind h
  iterate 4 obtain ⟨_, -, h⟩ := ok_of_bind h
  cases h
  rfl

/-- What an accepted document does: its roles are the global ones unless a newer version is
stored, none of them is missing where a role is named, and dropped roles lose their default. -/
structure AppliedRoles (document : PolicyDocument) (s s' : Store) : Prop where
  roles : globalRoles s' = globalRoles s ∨ globalRoles s' = document.roles
  kept : NoOrphans s (document.roles.map (·.key))
  users : s'.users = s.users
  boards : s'.boards = s.boards
  tokens : s'.serviceTokens = s.serviceTokens
  defaults : ∀ d ∈ s'.boardDefaults.rows, d ∈ s.boardDefaults.rows ∧
    ∀ role ∈ definedRoles s, d.subject = .role role → role ∈ document.roles.map (·.key)

/-- What an accepted document runs through: the global policy and the board's own, the roles no one may
miss, the lost roles' defaults, the new version, and a global one behind it when its roles differ. -/
theorem runs_apply_cases {boardId : Uuid} {actor : Actor} {document : PolicyDocument}
    {made : BoardPolicy} (h : Runs (PolicyService.apply boardId actor document) w made w') :
    ∃ (parsed : PolicyDocument) (authority : Board) (global current : BoardPolicy)
      (w₁ w₂ : World Store Tick),
      document.parse = .ok parsed ∧
      w.store.boards.rows.find? (·.isDefault) = some authority ∧
      PolicyRepository.newest w.store authority.id = some global ∧
      PolicyRepository.newest w.store boardId = some current ∧
      NoOrphans w.store (parsed.roles.map (·.key)) ∧
      Runs (ensureEach (global.config.roles.filter fun role => parsed.roles.all (·.key != role.key))
        fun role => BoardRepository.setDefault (.role role.key) none) w () w₁ ∧
      made.boardId = boardId ∧
      made.config = { parsed with
        waitingReasons := PolicyService.retireReasons parsed.waitingReasons current.config.waitingReasons } ∧
      Runs (PolicyRepository.insert made) w₁.tick.tick () w₂ ∧
      (w' = w₂ ∨ ∃ version : BoardPolicy,
        version.boardId = authority.id ∧
        version.config = { global.config with roles := parsed.roles } ∧
        Runs (PolicyRepository.insert version) w₂.tick () w') := by
  simp only [PolicyService.apply, BoardRepository.getDefault, PolicyRepository.getActive,
    runs_bind_iff, runs_ofExcept_iff, runs_read_iff, runs_requireFound_iff, runs_decidePolicy_iff,
    runs_newId_iff, runs_clockNow_iff] at h
  obtain ⟨parsed, _, ⟨hparse, rfl⟩, _, _, ⟨rfl, rfl⟩, authority, _, ⟨hauthority, rfl⟩, h⟩ := h
  obtain ⟨_, _, ⟨rfl, rfl⟩, global, _, ⟨hglobal, rfl⟩, _, _, haccess, h⟩ := h
  obtain ⟨rfl, -⟩ := runs_requireBoardAccess haccess
  obtain ⟨_, _, ⟨rfl, rfl⟩, current, _, ⟨hcurrent, rfl⟩, _, _, ⟨-, rfl⟩, _, w, horphans, h⟩ := h
  obtain ⟨rfl, hkept⟩ := runs_ensureNoOrphanedRole horphans
  obtain ⟨_, w₁, hdropped, _, _, ⟨rfl, rfl⟩, _, _, ⟨rfl, rfl⟩, _, w₂, hversion, h⟩ := h
  rcases runs_ite_iff.mp h with ⟨-, h⟩ | ⟨-, h⟩
  · simp only [runs_bind_iff, runs_newId_iff, runs_pure_iff] at h
    obtain ⟨_, _, ⟨rfl, rfl⟩, _, _, hglobalVersion, rfl, rfl⟩ := h
    exact ⟨parsed, authority, global, current, w₁, w₂, hparse, hauthority, hglobal, hcurrent, hkept,
      hdropped, rfl, rfl, hversion, .inr ⟨_, rfl, rfl, hglobalVersion⟩⟩
  · obtain ⟨rfl, rfl⟩ := runs_pure_iff.mp h
    exact ⟨parsed, authority, global, current, w₁, w', hparse, hauthority, hglobal, hcurrent, hkept,
      hdropped, rfl, rfl, hversion, .inl rfl⟩

theorem runs_apply {boardId : Uuid} {actor : Actor} {document : PolicyDocument} {r : BoardPolicy}
    (h : Runs (PolicyService.apply boardId actor document) w r w') :
    AppliedRoles document w.store w'.store := by
  have hframe : ∀ name, name ∉ [TableName.boardPolicies, .boardDefaults] →
      w.store.SameTable name w'.store :=
    fun name hname => sameTable_of_confined h (confined_applyPolicy boardId actor document) hname
  obtain ⟨parsed, authority, global, _, w₁, w₂, hparse, hauthority, hglobal, -, hkept, hdropped, -,
    hconfig, hversion, hlast⟩ := runs_apply_cases h
  obtain ⟨hs₁, hdefaults⟩ := runs_dropDefaults hdropped
  obtain ⟨hs₂, hnewest₂⟩ := runs_insertPolicy hversion
  have hroles := parse_roles hparse
  have hlast : w'.store.boardDefaults = w₂.store.boardDefaults ∧
      ∀ boardId, PolicyRepository.newest w'.store boardId = PolicyRepository.newest w₂.store boardId ∨
        ∃ version, PolicyRepository.newest w'.store boardId = some version ∧
          version.config.roles = parsed.roles := by
    rcases hlast with rfl | ⟨version, -, hglobalConfig, hglobalVersion⟩
    · exact ⟨rfl, fun _ => .inl rfl⟩
    · obtain ⟨hs₃, hnewest₃⟩ := runs_insertPolicy hglobalVersion
      refine ⟨hs₃ .boardDefaults (by decide), fun boardId => ?_⟩
      rcases hnewest₃ boardId with ⟨hnew, -⟩ | hsame
      · exact .inr ⟨version, hnew, by rw [hglobalConfig]⟩
      · exact .inl hsame
  obtain ⟨hs₃, hnewest₃⟩ := hlast
  have hboards : w'.store.boards = w.store.boards := hframe .boards (by decide)
  have hboardDefaults : w'.store.boardDefaults = w₁.store.boardDefaults :=
    hs₃.trans (hs₂ .boardDefaults (by decide))
  have hglobalOf : globalPolicyOf w.store = some global := by
    rw [globalPolicyOf, hauthority, Option.bind_some, hglobal]
  have hglobalOf' : globalPolicyOf w'.store = PolicyRepository.newest w'.store authority.id := by
    rw [globalPolicyOf, hboards, hauthority, Option.bind_some]
  refine ⟨?_, hroles ▸ hkept, ?_, hboards, ?_, ?_⟩
  · rcases hnewest₃ authority.id with hsame | ⟨version, hversion, hnew⟩
    · rcases hnewest₂ authority.id with ⟨hnew, -⟩ | hold
      · exact .inr (by simp [globalRoles, hglobalOf', hsame, hnew, hconfig, hroles])
      · refine .inl ?_
        replace hold := hold.trans (newest_congr hs₁ _)
        simp [globalRoles, hglobalOf', hglobalOf, hsame, hold, hglobal]
    · exact .inr (by simp [globalRoles, hglobalOf', hversion, hnew, hroles])
  · exact hframe .users (by decide)
  · exact hframe .serviceTokens (by decide)
  · intro d hd
    rw [hboardDefaults, hdefaults] at hd
    obtain ⟨hd, hkeep⟩ := List.mem_filter.mp hd
    refine ⟨hd, fun role hrole hsubject => ?_⟩
    obtain ⟨dropped, hdropped, rfl⟩ := List.mem_map.mp hrole
    by_contra hgone
    have hlost : dropped ∈ global.config.roles.filter
        fun role => parsed.roles.all (·.key != role.key) := by
      refine List.mem_filter.mpr ⟨by simpa [globalRoles, hglobalOf] using hdropped, ?_⟩
      simp only [List.all_eq_true, bne_iff_ne]
      intro kept hkeptRole heq
      exact hgone (List.mem_map.mpr ⟨kept, hroles ▸ hkeptRole, heq⟩)
    simpa [hsubject] using List.all_eq_true.mp hkeep dropped hlost

end applying

section accounts

/-- What an account may do depends on. -/
structure Standing where
  id : Uuid
  role : Role
  isActive : Bool
  deriving DecidableEq

def standing (row : UserCredentials) : Standing := ⟨row.user.id, row.user.role, row.user.isActive⟩

def standings (s : Store) : List Standing := s.users.rows.map standing

/-- The account of a user after an update. -/
def amend (userId : Uuid) (input : UpdateUserInput) (u : Standing) : Standing :=
  if u.id = userId then
    { u with role := input.role.getD u.role, isActive := input.isActive.getD u.isActive }
  else u

theorem amend_id (userId : Uuid) (input : UpdateUserInput) (u : Standing) :
    (amend userId input u).id = u.id := by
  unfold amend
  split_ifs <;> rfl

theorem amend_of_ne {userId : Uuid} {input : UpdateUserInput} {u : Standing} (h : u.id ≠ userId) :
    amend userId input u = u := if_neg h

theorem amend_congr {userId : Uuid} {input raw : UpdateUserInput} (hrole : input.role = raw.role)
    (hactive : input.isActive = raw.isActive) : amend userId input = amend userId raw := by
  funext u
  simp [amend, hrole, hactive]

def SameStandings (s s' : Store) : Prop := standings s' = standings s

instance : Std.Refl SameStandings := ⟨fun _ => rfl⟩
instance : IsTrans Store SameStandings := ⟨fun _ _ _ h h' => Eq.trans h' h⟩

variable {w w' : World Store Tick}

theorem standings_of_users {s s' : Store} (h : s'.users = s.users) : SameStandings s s' := by
  simp [SameStandings, standings, h]

theorem standings_update {s : Store} {row : UserCredentials}
    (haccepts : s.users.acceptsUpdate row = true) :
    standings { s with users := s.users.update row } =
      (standings s).map fun u => if u.id = row.user.id then standing row else u := by
  simp only [standings, Table.rows_update haccepts, List.map_map]
  refine List.map_congr_left fun x _ => ?_
  simp only [Function.comp_apply]
  split_ifs with hkey hid hid
  · rfl
  · exact absurd hkey hid
  · exact absurd hid hkey
  · rfl

theorem sameStandings_setPassword (userId : Uuid) (passwordHash : String) (must : Bool) :
    Preserves SameStandings (UserAccountRepository.setPassword userId passwordHash must) := by
  intro w u w' h
  simp only [UserAccountRepository.setPassword, runs_modifyRow_iff, put_users] at h
  obtain ⟨found, hfound, haccepts, -, rfl⟩ := h
  have hmem := Table.mem_of_find? hfound
  refine (standings_update haccepts).trans ((List.map_congr_left fun v hv => ?_).trans
    (List.map_id _))
  obtain ⟨row, hrow, rfl⟩ := List.mem_map.mp hv
  split_ifs with hid
  · have heq : row = found := Table.eq_of_key hrow hmem hid
    rw [heq]
    rfl
  · rfl

theorem sameStandings_revokeUserCredentials (userId : Uuid) (kept : Option String) :
    Preserves SameStandings (UserAdminService.revokeUserCredentials userId kept) := by
  intro w u w' h
  have hsame : w.store.SameTable .users w'.store :=
    sameTable_of_confined h (confined_revokeUserCredentials userId kept) (by decide)
  exact standings_of_users hsame

theorem runs_roleExists {policy : PolicyDocument} {role : Role}
    (hroles : policy.roles = globalRoles w.store)
    (h : UserAdminService.roleExists policy role = true) : role ∈ definedRoles w.store := by
  simpa [UserAdminService.roleExists, hroles, definedRoles] using h

theorem runs_ensureOtherAdmin {deps : UserAdminServiceDeps} {adminRoles : List Role} {found : User}
    {input : UpdateUserInput} {u : Unit}
    (h : Runs (UserAdminService.ensureOtherAdmin deps adminRoles found input) w u w')
    (hadmin : found.role ∈ adminRoles) (hactive : found.isActive = true)
    (hloses : (∃ role, input.role = some role ∧ role ∉ adminRoles) ∨ input.isActive = some false) :
    ∃ v ∈ standings w.store, v.isActive = true ∧ v.id ≠ found.id ∧ v.id ≠ deps.systemUserId ∧
      v.role ∈ adminRoles := by
  have hcond : (adminRoles.contains found.role && found.isActive &&
      (input.role.any (!adminRoles.contains ·) || input.isActive == some false)) = true := by
    rcases hloses with ⟨role, hrole, hnot⟩ | hfalse
    · simp [hadmin, hactive, hrole, hnot]
    · simp [hadmin, hactive, hfalse]
  rw [UserAdminService.ensureOtherAdmin, if_pos hcond] at h
  simp only [UserAccountRepository.list, runs_bind_iff, runs_read_iff, runs_ensure_iff] at h
  obtain ⟨_, _, ⟨rfl, rfl⟩, hany, rfl⟩ := h
  obtain ⟨user, huser, hother⟩ := List.any_eq_true.mp hany
  simp only [List.mem_reverse, mem_newestFirst, List.mem_map] at huser
  obtain ⟨row, hrow, rfl⟩ := huser
  simp only [Bool.and_eq_true, List.contains_iff_mem, bne_iff_ne] at hother
  obtain ⟨⟨⟨hrole, hlive⟩, hid⟩, hsystem⟩ := hother
  exact ⟨standing row, List.mem_map_of_mem hrow, hlive, hid, hsystem, hrole⟩

/-- An accepted update gives the user the role and the activity it names. A role it names is
defined, and an administrator is not lost unless another one is there. -/
structure UpdatedUser (deps : UserAdminServiceDeps) (userId : Uuid) (input : UpdateUserInput)
    (s s' : Store) : Prop where
  frame : ∀ name, name ∉ credentialTables → s.SameTable name s'
  role : ∀ role, input.role = some role → role ∈ definedRoles s
  standings : standings s' = (standings s).map (amend userId input)
  guard : ∀ policy : PolicyDocument, policy.roles = globalRoles s →
    ∀ u ∈ Effects.standings s, u.id = userId → u.isActive = true →
    u.role ∈ UserAdminService.manageUsersRoleKeys policy →
    (∃ role, input.role = some role ∧ role ∉ UserAdminService.manageUsersRoleKeys policy) ∨
      input.isActive = some false →
    ∃ v ∈ Effects.standings s, v.isActive = true ∧ v.id ≠ userId ∧ v.id ≠ deps.systemUserId ∧
      v.role ∈ UserAdminService.manageUsersRoleKeys policy

theorem parse_updateUser {raw input : UpdateUserInput} (h : raw.parse = .ok input) :
    input.role = raw.role ∧ input.isActive = raw.isActive := by
  unfold UpdateUserInput.parse at h
  iterate 3 obtain ⟨_, -, h⟩ := ok_of_bind h
  cases h
  exact ⟨rfl, rfl⟩

/-- The writes of an accepted update. -/
def accountWrites (userId : Uuid) (input : UpdateUserInput) (found : User) (temp : TempPassword) :
    Tx (User × Option TempPassword) := do
  let updated := { found with
    displayName := input.displayName.getD found.displayName
    role := input.role.getD found.role
    isActive := input.isActive.getD found.isActive
    mustChangePassword := input.resetPassword || found.mustChangePassword }
  UserAccountRepository.update updated
  if input.resetPassword then
    UserAccountRepository.setPassword userId temp.hash true
  if updated.role ≠ found.role ∨ (found.isActive ∧ ¬ updated.isActive) ∨ input.resetPassword then
    UserAdminService.revokeUserCredentials userId none
  return (updated, if input.resetPassword then some temp else none)

/-- The checks of an update: its input, and the account it is about. -/
def accountChecks (deps : UserAdminServiceDeps) (actor : Actor) (userId : Uuid)
    (raw : UpdateUserInput) : Tx (UpdateUserInput × User) := do
  let input ← .ofExcept raw.parse
  let policy ← loadActivePolicy deps.boardId
  .ofExcept (ensurePermission actor .manageUsers policy)
  CardService.forPresent input.role fun role =>
    Program.ensure (UserAdminService.roleExists policy role) (UserAdminService.unknownRole role)
  let found ← requireFound (← UserRepository.findById userId) "user"
  UserAdminService.ensureOtherAdmin deps (UserAdminService.manageUsersRoleKeys policy) found input
  return (input, found)

theorem updateUser_eq (deps : UserAdminServiceDeps) (actor : Actor) (userId : Uuid)
    (raw : UpdateUserInput) (temp : TempPassword) :
    UserAdminService.update deps actor userId raw temp =
      accountChecks deps actor userId raw >>= fun checked =>
        accountWrites userId checked.1 checked.2 temp := by
  simp only [accountChecks, bind_assoc, pure_bind]
  rfl

theorem readsOnly_accountChecks (deps : UserAdminServiceDeps) (actor : Actor) (userId : Uuid)
    (raw : UpdateUserInput) : (accountChecks deps actor userId raw).ReadsOnly := by
  refine (Program.readsOnly_ofExcept _).bind fun _ => (readsOnly_activePolicy _).bind fun _ => ?_
  refine (Program.readsOnly_ofExcept _).bind fun _ => ?_
  refine (readsOnly_forPresent fun _ => Program.readsOnly_ensure _ _).bind fun _ => ?_
  refine (Program.readsOnly_read _).bind fun _ => (readsOnly_requireFound _ _).bind fun _ => ?_
  exact (readsOnly_ensureOtherAdmin _ _ _ _).bind fun _ => Program.readsOnly_pure _

theorem standings_accountWrites {userId : Uuid} {input : UpdateUserInput} {temp : TempPassword}
    {found : UserCredentials} {r : User × Option TempPassword}
    (hfound : w.store.users.find? userId = some found)
    (h : Runs (accountWrites userId input found.user temp) w r w') :
    standings w'.store = (standings w.store).map (amend userId input) := by
  have hmem : found ∈ w.store.users.rows := Table.mem_of_find? hfound
  have hid : found.user.id = userId := Table.find?_key hfound
  simp only [accountWrites, runs_bind_iff] at h
  obtain ⟨_, w₁, hupdate, h⟩ := h
  have hwritten : standings w₁.store = (standings w.store).map (amend userId input) := by
    simp only [UserAccountRepository.update, runs_modifyRow_iff, put_users, table_users] at hupdate
    obtain ⟨row, hrow, haccepts, -, rfl⟩ := hupdate
    rw [World.withStore_store, standings_update haccepts]
    refine List.map_congr_left fun v hv => ?_
    obtain ⟨x, hx, rfl⟩ := List.mem_map.mp hv
    by_cases hsame : (standing x).id = userId
    · have heq : x = found := Table.eq_of_key hx hmem (hsame.trans hid.symm)
      rw [amend, if_pos hsame, heq]
      exact if_pos rfl
    · rw [amend, if_neg hsame]
      exact if_neg fun h => hsame (h.trans hid)
  have hpassword := sameStandings_setPassword userId temp.hash true
  have hrevoke := sameStandings_revokeUserCredentials userId none
  have hpure : ∀ a : User × Option TempPassword, Preserves SameStandings (pure a : Tx _) :=
    fun a => .of_readsOnly (Program.readsOnly_pure a)
  have htail : SameStandings w₁.store w'.store := by
    refine (?_ : Preserves SameStandings _) _ _ _ h
    split_ifs
    · exact hpassword.bind fun _ => hrevoke.bind fun _ => hpure _
    · exact hpassword.bind fun _ => hpure _
    · exact hrevoke.bind fun _ => hpure _
    · exact hpure _
  exact htail.trans hwritten

/-- Revoking credentials never fails. -/
theorem revokeUserCredentials_runs (userId : Uuid) (kept : Option String) (w : World Store Tick) :
    ∃ w', Runs (UserAdminService.revokeUserCredentials userId kept) w () w' := by
  simp [UserAdminService.revokeUserCredentials, SessionRepository.revokeOthersForUser,
    OAuthRepositories.revokeCodesForUser, OAuthRepositories.revokeAccessTokensForUser,
    OAuthRepositories.revokeRefreshTokensForUser]

/-- A profile rewritten under the same id and address meets every constraint. -/
theorem rewrites_account {userId : Uuid} {row : UserCredentials} (next : UserCredentials)
    (hrow : w.store.users.find? userId = some row) (hid : next.user.id = row.user.id)
    (hemail : next.user.email = row.user.email) :
    w.store.users.acceptsUpdate next = true ∧
      (w.store.users.update next).find? userId = some next := by
  have hkey : Row.key next = userId := hid.trans (Table.find?_key hrow)
  have haccepts : w.store.users.acceptsUpdate next = true := by
    refine Table.acceptsUpdate_of_clash (Table.mem_of_find? hrow) hid fun x => ?_
    simp only [Row.clash, hid, hemail]
  refine ⟨haccepts, ?_⟩
  rw [Table.find?_update haccepts, if_pos hkey, hrow]
  rfl

theorem setPassword_runs {userId : Uuid} {row : UserCredentials} (hash : String) (must : Bool)
    (hrow : w.store.users.find? userId = some row) :
    ∃ w', Runs (UserAccountRepository.setPassword userId hash must) w () w' := by
  simp only [UserAccountRepository.setPassword, runs_modifyRow_iff, table_users]
  exact ⟨_, row, hrow, (rewrites_account _ hrow rfl rfl).1, rfl, rfl⟩

/-- The writes of an update never fail while the account is as it was found. -/
theorem accountWrites_runs {userId : Uuid} {found : UserCredentials} (input : UpdateUserInput)
    (temp : TempPassword) (hfound : w.store.users.find? userId = some found) :
    ∃ r w', Runs (accountWrites userId input found.user temp) w r w' := by
  have hid : found.user.id = userId := Table.find?_key hfound
  have hupdate : ∀ next : User, next.id = userId → next.email = found.user.email →
      ∃ w₁, Runs (UserAccountRepository.update next) w () w₁ ∧
        ∃ row, w₁.store.users.find? userId = some row := by
    intro next hnext hemail
    obtain ⟨haccepts, hfind⟩ := rewrites_account
      { found with user := { next with createdAt := found.user.createdAt } }
      hfound (hnext.trans hid.symm) hemail
    simp only [UserAccountRepository.update, runs_modifyRow_iff, table_users, put_users]
    exact ⟨_, ⟨found, by rwa [hnext], haccepts, rfl, rfl⟩, _, hfind⟩
  obtain ⟨w₁, hwritten, row, hrow⟩ := hupdate { found.user with
    displayName := input.displayName.getD found.user.displayName
    role := input.role.getD found.user.role
    isActive := input.isActive.getD found.user.isActive
    mustChangePassword := input.resetPassword || found.user.mustChangePassword } hid rfl
  obtain ⟨w₂, hpassword⟩ := setPassword_runs temp.hash true hrow
  obtain ⟨w₃, hrevoked⟩ := revokeUserCredentials_runs userId none w₂
  obtain ⟨w₃', hrevoked'⟩ := revokeUserCredentials_runs userId none w₁
  have hpure : ∀ (a : User × Option TempPassword) (w : World Store Tick),
      ∃ r w', Runs (pure a : Tx _) w r w' := fun a w => ⟨a, w, runs_pure_iff.mpr ⟨rfl, rfl⟩⟩
  refine exists_runs_bind hwritten ?_
  split_ifs
  · exact exists_runs_bind hpassword (exists_runs_bind hrevoked (hpure _ _))
  · exact exists_runs_bind hpassword (hpure _ _)
  · exact exists_runs_bind hrevoked' (hpure _ _)
  · exact hpure _ _

theorem runs_updateUser {deps : UserAdminServiceDeps} {actor : Actor} {userId : Uuid}
    {raw : UpdateUserInput} {temp : TempPassword} {r : User × Option TempPassword}
    (h : Runs (UserAdminService.update deps actor userId raw temp) w r w') :
    UpdatedUser deps userId raw w.store w'.store := by
  have hframe : ∀ name, name ∉ credentialTables → w.store.SameTable name w'.store :=
    fun name hname => sameTable_of_confined h (confined_updateUser deps actor userId raw temp) hname
  rw [updateUser_eq, runs_bind_iff] at h
  obtain ⟨⟨input, user⟩, w, hchecks, hwrites⟩ := h
  obtain rfl := hchecks.of_readsOnly (readsOnly_accountChecks _ _ _ _)
  simp only [accountChecks, loadActivePolicy, UserRepository.findById, runs_bind_iff,
    runs_ofExcept_iff, runs_read_iff, runs_requireFound_iff, runs_pure_iff, Prod.mk.injEq] at hchecks
  obtain ⟨_, _, ⟨hparse, rfl⟩, policy, _, hpolicy, _, _, ⟨-, rfl⟩, _, _, hrole, _, _, ⟨rfl, rfl⟩,
    _, w, ⟨hfound, rfl⟩, _, _, hguard, ⟨rfl, rfl⟩, rfl⟩ := hchecks
  obtain ⟨rfl, hroles⟩ := runs_activePolicy_roles hpolicy
  obtain ⟨hinputRole, hinputActive⟩ := parse_updateUser hparse
  obtain rfl := hrole.of_readsOnly (readsOnly_forPresent fun _ => Program.readsOnly_ensure _ _)
  obtain ⟨found, hrow, rfl⟩ := Option.map_eq_some_iff.mp hfound
  have hmem : found ∈ w.store.users.rows := Table.mem_of_find? hrow
  have hid : found.user.id = userId := Table.find?_key hrow
  refine ⟨hframe, ?_, ?_, ?_⟩
  · intro role hraw
    rw [hinputRole, hraw] at hrole
    simp only [CardService.forPresent, runs_ensure_iff] at hrole
    exact runs_roleExists hroles hrole.1
  · rw [← amend_congr hinputRole hinputActive]
    exact standings_accountWrites hrow hwrites
  · intro document hdocument v hv hvid hactive hadmin hloses
    obtain ⟨x, hx, rfl⟩ := List.mem_map.mp hv
    have heq : x = found := Table.eq_of_key hx hmem (hvid.trans hid.symm)
    have hkeys : UserAdminService.manageUsersRoleKeys policy =
        UserAdminService.manageUsersRoleKeys document := by
      simp [UserAdminService.manageUsersRoleKeys, hroles, hdocument]
    rw [hkeys] at hguard
    subst heq
    rw [← hid]
    exact runs_ensureOtherAdmin hguard hadmin hactive (by rwa [hinputRole, hinputActive])

/-- An accepted creation adds one active account, of a defined role. -/
structure CreatedUser (input : CreateUserInput) (s s' : Store) : Prop where
  frame : ∀ name, name ≠ .users → s.SameTable name s'
  role : input.role ∈ definedRoles s
  standings : ∃ id, standings s' = standings s ++ [⟨id, input.role, true⟩]

theorem parse_createUser {raw input : CreateUserInput} (h : raw.parse = .ok input) :
    input.role = raw.role := by
  unfold CreateUserInput.parse at h
  iterate 3 obtain ⟨_, -, h⟩ := ok_of_bind h
  cases h
  rfl

variable [Platform]

theorem runs_createUser {deps : UserAdminServiceDeps} {actor : Actor} {raw : CreateUserInput}
    {temp : TempPassword} {r : User × TempPassword}
    (h : Runs (UserAdminService.create deps actor raw temp) w r w') :
    CreatedUser raw w.store w'.store := by
  have hframe : ∀ name, name ≠ .users → w.store.SameTable name w'.store := fun name hname =>
    sameTable_of_confined h (confined_createUser deps actor raw temp) (by simpa using hname)
  simp only [UserAdminService.create, loadActivePolicy, UserAccountRepository.insert,
    runs_bind_iff, runs_ofExcept_iff, runs_newId_iff, runs_clockNow_iff, runs_ensure_iff,
    runs_insertRow_iff, runs_pure_iff, put_users, table_users] at h
  obtain ⟨input, _, ⟨hparse, rfl⟩, id, _, ⟨-, rfl⟩, now, _, ⟨-, rfl⟩, policy, w₁, hpolicy, _, _,
    ⟨-, rfl⟩, _, _, ⟨hrole, rfl⟩, _, _, ⟨haccepts, -, rfl⟩, -, rfl⟩ := h
  obtain ⟨rfl, hroles⟩ := runs_activePolicy_roles hpolicy
  have hinput := parse_createUser hparse
  refine ⟨hframe, ?_, id, ?_⟩ <;> rw [← hinput]
  · exact runs_roleExists hroles hrole
  · simp only [standings, World.withStore_store, Table.rows_insert haccepts, List.map_append,
      List.map_cons, List.map_nil, standing]
    rfl

end accounts
end AiKanban.Effects

