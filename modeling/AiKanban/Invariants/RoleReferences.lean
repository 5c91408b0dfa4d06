import AiKanban.Effects.RoleHolders
import AiKanban.Invariants.Administrators

/-!
# The roles that are named

Whoever holds a role by name, and whatever a board or a default names, over runs of the policy,
the user, the token and the board service.
-/
namespace AiKanban.Invariants

open Domain Db Policy Relational Services Server Transactions
open Application Effects Transitions

/-- Every active user, live token, active board and default of a role names a defined role. -/
structure RolesNamed (s : Store) : Prop where
  users : ∀ row ∈ s.users.rows, row.user.isActive = true → row.user.role ∈ definedRoles s
  tokens : ∀ token ∈ s.serviceTokens.rows, token.revokedAt = none → token.role ∈ definedRoles s
  boards : ∀ board ∈ s.boards.rows, board.archivedAt = none →
    ∀ role ∈ board.allowedRoleKeys, role ∈ definedRoles s
  defaults : ∀ d ∈ s.boardDefaults.rows, ∀ role, d.subject = .role role → role ∈ definedRoles s

section seed

/-- What the first boot leaves in the tables that define or name roles. -/
structure SeededRoles (s : Store) : Prop where
  boards : ∃ board : Board, s.boards.rows = [board] ∧ board.isDefault = true ∧
    board.allowedRoleKeys = [] ∧ ∃ version : BoardPolicy, s.boardPolicies.rows = [version] ∧
      version.boardId = board.id ∧ version.config = defaultPolicyDocument
  users : ∃ row : UserCredentials, s.users.rows = [row] ∧ row.user.role = "admin"
  tokens : s.serviceTokens.rows = []
  defaults : s.boardDefaults.rows = []

variable {w w' : World Store Tick}

theorem runs_seedNewBoard {now : Instant} {board : Board} (hempty : w.store.boards.rows = [])
    (h : Runs (seedNewBoard now) w board w') : w'.store.boards.rows = [board] ∧
      board.isDefault = true ∧ board.allowedRoleKeys = [] ∧
      ∀ name, name ≠ .boards → w.store.SameTable name w'.store := by
  have hframe := frame_of_confined h (confined_seedNewBoard (List.mem_singleton.mpr rfl) now)
  simp only [seedNewBoard, BoardRepository.insert, runs_bind_iff, runs_newId_iff,
    runs_insertRow_iff, runs_pure_iff, table_boards, put_boards] at h
  obtain ⟨id, _, ⟨-, rfl⟩, _, _, ⟨haccepts, -, rfl⟩, rfl, rfl⟩ := h
  refine ⟨?_, rfl, rfl, hframe⟩
  rw [World.withStore_store, Table.rows_insert haccepts, World.tick_store, hempty]
  rfl

theorem runs_seedSystemUser {now : Instant} {user : User} (hempty : w.store.users.rows = [])
    (h : Runs (seedSystemUser now) w user w') :
    (∃ row : UserCredentials, w'.store.users.rows = [row] ∧ row.user.role = "admin") ∧
      ∀ name, name ≠ .users → w.store.SameTable name w'.store := by
  have hframe := frame_of_confined h (confined_seedSystemUser (List.mem_singleton.mpr rfl) now)
  simp only [seedSystemUser, UserAccountRepository.insert, hempty, runs_bind_iff, runs_read_iff,
    List.find?_nil] at h
  obtain ⟨_, _, ⟨rfl, rfl⟩, h⟩ := h
  simp only [runs_bind_iff, runs_newId_iff, runs_insertRow_iff, runs_pure_iff, table_users,
    put_users] at h
  obtain ⟨id, _, ⟨-, rfl⟩, _, _, ⟨haccepts, -, rfl⟩, rfl, rfl⟩ := h
  have hrows := Table.rows_insert haccepts
  rw [World.tick_store, hempty] at hrows
  exact ⟨⟨_, hrows, rfl⟩, hframe⟩

theorem runs_seedPolicy {boardId userId : Uuid} {now : Instant} {u : Unit}
    (hempty : w.store.boardPolicies.rows = []) (h : Runs (seedPolicy boardId userId now) w u w') :
    (∃ version : BoardPolicy, w'.store.boardPolicies.rows = [version] ∧
      version.boardId = boardId ∧ version.config = defaultPolicyDocument) ∧
      ∀ name, name ≠ .boardPolicies → w.store.SameTable name w'.store := by
  have hframe :=
    frame_of_confined h (confined_seedPolicy (List.mem_singleton.mpr rfl) boardId userId now)
  simp only [seedPolicy, hempty, runs_bind_iff, runs_read_iff, List.any_nil] at h
  obtain ⟨_, _, ⟨rfl, rfl⟩, h⟩ := h
  simp only [Bool.false_eq_true, if_false, PolicyRepository.insert, runs_bind_iff, runs_newId_iff,
    runs_insertRow_iff, table_boardPolicies, put_boardPolicies] at h
  obtain ⟨id, _, ⟨-, rfl⟩, haccepts, -, rfl⟩ := h
  have hrows := Table.rows_insert haccepts
  rw [World.tick_store, hempty] at hrows
  exact ⟨⟨_, hrows, rfl, rfl⟩, hframe⟩

theorem runs_structuralSeed {r : StructuralSeedResult} (hempty : w.store = {})
    (h : Runs structuralSeed w r w') : SeededRoles w'.store := by
  have hframe : ∀ name, name ∉ seedTables → w.store.SameTable name w'.store :=
    fun name hname => sameTable_of_confined h confined_structuralSeed hname
  simp only [structuralSeed, seedBoard, runs_bind_iff, runs_clockNow_iff, runs_read_iff] at h
  obtain ⟨now, _, ⟨-, rfl⟩, existing, _, ⟨hexisting, rfl⟩, h⟩ := h
  have hnone : existing = none := by rw [hexisting, World.tick_store, hempty]; rfl
  subst hnone
  simp only [Option.isNone_none, if_true, runs_bind_iff, runs_pure_iff] at h
  obtain ⟨board, w₁, hboard, system, w₂, hsystem, _, w₃, hlanes, _, _, hpolicy, -, rfl⟩ := h
  obtain ⟨hboards₁, hflag, hkeys, hframe₁⟩ := runs_seedNewBoard (by simp [hempty]; rfl) hboard
  have husers₁ : w₁.store.users.rows = [] := by
    rw [show w₁.store.users = w.store.users from hframe₁ .users (by decide), hempty]
    rfl
  obtain ⟨⟨row, husers₂, hadmin⟩, hframe₂⟩ := runs_seedSystemUser husers₁ hsystem
  have hframe₃ : ∀ name, name ≠ .lanes → w₂.store.SameTable name w₃.store :=
    frame_of_confined hlanes (confined_insertDefaultLanes (by simp) _)
  have hpolicies₃ : w₃.store.boardPolicies = w.store.boardPolicies :=
    Eq.trans (hframe₃ .boardPolicies (by decide)) <| Eq.trans (hframe₂ .boardPolicies (by decide)) <|
      hframe₁ .boardPolicies (by decide)
  obtain ⟨⟨version, hversion, hid, hconfig⟩, hframe₄⟩ :=
    runs_seedPolicy (by rw [hpolicies₃, hempty]; rfl) hpolicy
  have hboards : w'.store.boards = w₁.store.boards :=
    Eq.trans (hframe₄ .boards (by decide)) <| Eq.trans (hframe₃ .boards (by decide)) <|
      hframe₂ .boards (by decide)
  have husers : w'.store.users = w₂.store.users :=
    Eq.trans (hframe₄ .users (by decide)) (hframe₃ .users (by decide))
  have htokens : w'.store.serviceTokens = w.store.serviceTokens :=
    hframe .serviceTokens (by decide)
  have hdefaults : w'.store.boardDefaults = w.store.boardDefaults :=
    hframe .boardDefaults (by decide)
  constructor
  · exact ⟨board, by rw [hboards, hboards₁], hflag, hkeys, version, hversion, hid, hconfig⟩
  · exact ⟨row, by rw [husers, husers₂], hadmin⟩
  · rw [htokens, hempty]
    rfl
  · rw [hdefaults, hempty]
    rfl

theorem SeededRoles.named {s : Store} (h : SeededRoles s) : RolesNamed s := by
  obtain ⟨board, hboards, hflag, hkeys, version, hversions, hid, hconfig⟩ := h.boards
  obtain ⟨row, husers, hadmin⟩ := h.users
  have hnewest : PolicyRepository.newest s board.id = some version := by
    simp [PolicyRepository.newest, hversions, hid, newestFirst]
  have hdefined : definedRoles s = ["user", "admin"] := by
    simp [definedRoles, globalRoles, globalPolicyOf, hboards, hflag, hnewest, hconfig,
      defaultPolicyDocument, userRole, adminRole]
  constructor
  · intro x hx _
    rw [husers, List.mem_singleton] at hx
    simp [hx, hadmin, hdefined]
  · simp [h.tokens]
  · intro x hx _ role hrole
    rw [hboards, List.mem_singleton] at hx
    simp [hx, hkeys] at hrole
  · simp [h.defaults]

/-- A first boot that fails leaves no rows at all. -/
theorem rolesNamed_freshlySeeded (inputs : ℕ → Tick) :
    RolesNamed (freshlySeeded inputs).store := by
  unfold freshlySeeded
  rcases ht : transact structuralSeed ⟨{}, inputs, 0⟩ with ⟨e | r, w'⟩
  · have hstore : w'.store = {} := transact_error ht
    constructor <;> rw [hstore] <;> intro x hx <;> cases hx
  · exact (runs_structuralSeed rfl (transact_ok_iff.mp ht)).named

end seed

section steps

variable {s s' : Store} {w : World Store Tick}

theorem RolesNamed.of_same (h : RolesNamed s) (hroles : definedRoles s' = definedRoles s)
    (husers : ∀ u ∈ standings s', u.isActive = true → u ∈ standings s ∨ u.role ∈ definedRoles s)
    (htokens : ∀ token ∈ s'.serviceTokens.rows, token.revokedAt = none →
      (∃ old ∈ s.serviceTokens.rows, old.revokedAt = none ∧ old.role = token.role) ∨
        token.role ∈ definedRoles s)
    (hboards : ∀ board ∈ s'.boards.rows, board.archivedAt = none →
      board ∈ s.boards.rows ∨ ∀ role ∈ board.allowedRoleKeys, role ∈ definedRoles s)
    (hdefaults : DefaultsName (definedRoles s) s') : RolesNamed s' := by
  constructor <;> rw [hroles]
  · intro row hrow hactive
    rcases husers (Effects.standing row) (List.mem_map_of_mem hrow) hactive with hold | hrole
    · obtain ⟨old, holdRow, heq⟩ := List.mem_map.mp hold
      injection heq with _ hrole hlive
      rw [← hrole]
      exact h.users old holdRow (hlive.trans hactive)
    · exact hrole
  · intro token htoken hlive
    rcases htokens token htoken hlive with ⟨old, hold, holdLive, hrole⟩ | hrole
    · rw [← hrole]
      exact h.tokens old hold holdLive
    · exact hrole
  · intro board hboard hactive
    rcases hboards board hboard hactive with hold | hkeys
    · exact h.boards board hold hactive
    · exact hkeys
  · exact hdefaults

theorem definedRoles_of_frame (h : ∀ name, name = .boards ∨ name = .boardPolicies →
    s.SameTable name s') : definedRoles s' = definedRoles s := by
  have hglobal := globalRoles_congr (h .boards (.inl rfl)) (h .boardPolicies (.inr rfl))
  rw [definedRoles, definedRoles, hglobal]

theorem rolesNamed_apply {document : PolicyDocument} (h : RolesNamed s)
    (hs : AppliedRoles document s s') : RolesNamed s' := by
  have hstandings : standings s' = standings s := standings_of_users hs.users
  rcases hs.roles with hroles | hroles
  · refine h.of_same (by rw [definedRoles, definedRoles, hroles]) ?_ ?_ ?_ ?_
    · rw [hstandings]
      exact fun u hu _ => .inl hu
    · rw [hs.tokens]
      exact fun token htoken hlive => .inl ⟨token, htoken, hlive, rfl⟩
    · rw [hs.boards]
      exact fun board hboard _ => .inl hboard
    · exact fun d hd role hrole => h.defaults d (hs.defaults d hd).1 role hrole
  · have hdefined : definedRoles s' = document.roles.map (·.key) := by rw [definedRoles, hroles]
    constructor <;> rw [hdefined]
    · rw [hs.users]
      exact hs.kept.users
    · rw [hs.tokens]
      exact hs.kept.tokens
    · rw [hs.boards]
      exact hs.kept.boards
    · intro d hd role hrole
      obtain ⟨hold, hkept⟩ := hs.defaults d hd
      exact hkept role (h.defaults d hold role hrole) hrole

theorem rolesNamed_createUser {input : CreateUserInput} (h : RolesNamed s)
    (hs : CreatedUser input s s') : RolesNamed s' := by
  obtain ⟨id, hstandings⟩ := hs.standings
  have htokens : s'.serviceTokens = s.serviceTokens := hs.frame .serviceTokens (by decide)
  have hboards : s'.boards = s.boards := hs.frame .boards (by decide)
  have hdefaults : s'.boardDefaults = s.boardDefaults := hs.frame .boardDefaults (by decide)
  refine h.of_same (definedRoles_of_frame fun name hname => hs.frame name ?_) ?_ ?_ ?_ ?_
  · rcases hname with rfl | rfl <;> decide
  · intro u hu _
    rw [hstandings, List.mem_append, List.mem_singleton] at hu
    rcases hu with hold | rfl
    · exact .inl hold
    · exact .inr hs.role
  · rw [htokens]
    exact fun token htoken hlive => .inl ⟨token, htoken, hlive, rfl⟩
  · rw [hboards]
    exact fun board hboard _ => .inl hboard
  · rw [DefaultsName, hdefaults]
    exact h.defaults

/-- A reactivated account that the update gives no role still has a defined one. -/
def ReactivatesDefined (w : World Store Tick) : RoleOperation → Prop
  | .updateUser _ _ userId input _ => input.isActive = some true → input.role = none →
      ∀ row ∈ w.store.users.rows, row.user.id = userId → row.user.isActive = false →
        row.user.role ∈ definedRoles w.store
  | _ => True

instance (w : World Store Tick) : ∀ op, Decidable (ReactivatesDefined w op)
  | .updateUser _ _ userId input _ => inferInstanceAs (Decidable
      (input.isActive = some true → input.role = none → ∀ row ∈ w.store.users.rows,
        row.user.id = userId → row.user.isActive = false →
          row.user.role ∈ definedRoles w.store))
  | .applyPolicy .. | .createUser .. | .createToken .. | .rotateToken .. | .revokeToken ..
  | .createBoard .. | .updateBoard .. | .removeBoard .. => inferInstanceAs (Decidable True)

theorem rolesNamed_updateUser {deps : UserAdminServiceDeps} {userId : Uuid}
    {input : UpdateUserInput} (h : RolesNamed s) (hs : UpdatedUser deps userId input s s')
    (hreactivates : input.isActive = some true → input.role = none →
      ∀ row ∈ s.users.rows, row.user.id = userId → row.user.isActive = false →
        row.user.role ∈ definedRoles s) : RolesNamed s' := by
  have htokens : s'.serviceTokens = s.serviceTokens := hs.frame .serviceTokens (by decide)
  have hboards : s'.boards = s.boards := hs.frame .boards (by decide)
  have hdefaults : s'.boardDefaults = s.boardDefaults := hs.frame .boardDefaults (by decide)
  refine h.of_same (definedRoles_of_frame fun name hname => hs.frame name ?_) ?_ ?_ ?_ ?_
  · rcases hname with rfl | rfl <;> decide
  · intro u hu hactive
    rw [hs.standings] at hu
    obtain ⟨v, hv, rfl⟩ := List.mem_map.mp hu
    obtain ⟨row, hrow, rfl⟩ := List.mem_map.mp hv
    unfold amend at hactive ⊢
    split_ifs at hactive ⊢ with hid
    · refine .inr ?_
      cases hrole : input.role with
      | some role => exact hs.role role hrole
      | none =>
        cases hlive : row.user.isActive with
        | true => exact h.users row hrow hlive
        | false =>
          have hset : input.isActive = some true := by
            cases hinput : input.isActive with
            | none => simp [hinput, Effects.standing, hlive] at hactive
            | some active => simpa [hinput] using hactive
          exact hreactivates hset hrole row hrow hid hlive
    · exact .inl hv
  · rw [htokens]
    exact fun token htoken hlive => .inl ⟨token, htoken, hlive, rfl⟩
  · rw [hboards]
    exact fun board hboard _ => .inl hboard
  · rw [DefaultsName, hdefaults]
    exact h.defaults

theorem rolesNamed_tokens (h : RolesNamed s) (hs : TokensGranted s s') : RolesNamed s' := by
  have hboards : s'.boards = s.boards := hs.frame .boards (by decide)
  have hdefaults : s'.boardDefaults = s.boardDefaults := hs.frame .boardDefaults (by decide)
  have hstandings : standings s' = standings s := standings_of_users (hs.frame .users (by decide))
  refine h.of_same (definedRoles_of_frame fun name hname => hs.frame name ?_) ?_ hs.live ?_ ?_
  · rcases hname with rfl | rfl <;> decide
  · rw [hstandings]
    exact fun u hu _ => .inl hu
  · rw [hboards]
    exact fun board hboard _ => .inl hboard
  · rw [DefaultsName, hdefaults]
    exact h.defaults

theorem rolesNamed_boards (h : RolesNamed s) (hs : BoardsGranted s s') : RolesNamed s' := by
  have hstandings : standings s' = standings s := standings_of_users hs.users
  refine h.of_same (definedRoles_congr hs.global) ?_ ?_ hs.active (hs.defaults h.defaults)
  · rw [hstandings]
    exact fun u hu _ => .inl hu
  · rw [hs.tokens]
    exact fun token htoken hlive => .inl ⟨token, htoken, hlive, rfl⟩

variable [Platform]

theorem rolesNamed_step {op : RoleOperation} (h : RolesNamed w.store)
    (hreactivates : ReactivatesDefined w op) : RolesNamed (roleStep w op).store := by
  rcases roleStep_cases w op with hsame | ⟨_, hruns⟩
  · rwa [hsame]
  · cases op with
    | applyPolicy boardId actor document =>
      obtain ⟨_, happly, -⟩ := runs_map_iff.mp hruns
      exact rolesNamed_apply h (runs_apply happly)
    | createUser deps actor raw temp =>
      obtain ⟨_, hcreate, -⟩ := runs_map_iff.mp hruns
      exact rolesNamed_createUser h (runs_createUser hcreate)
    | updateUser deps actor userId raw temp =>
      obtain ⟨_, hupdate, -⟩ := runs_map_iff.mp hruns
      exact rolesNamed_updateUser h (runs_updateUser hupdate) hreactivates
    | createToken boardId actor raw minted =>
      obtain ⟨_, hcreate, -⟩ := runs_map_iff.mp hruns
      exact rolesNamed_tokens h (runs_createToken hcreate)
    | rotateToken boardId actor tokenId minted =>
      obtain ⟨_, hrotate, -⟩ := runs_map_iff.mp hruns
      exact rolesNamed_tokens h (runs_rotateToken hrotate)
    | revokeToken boardId actor tokenId => exact rolesNamed_tokens h (runs_revokeToken hruns)
    | createBoard actor raw =>
      obtain ⟨_, hcreate, -⟩ := runs_map_iff.mp hruns
      exact rolesNamed_boards h (runs_createBoard hcreate)
    | updateBoard actor boardId raw =>
      obtain ⟨_, hupdate, -⟩ := runs_map_iff.mp hruns
      exact rolesNamed_boards h (runs_updateBoard hupdate)
    | removeBoard actor boardId => exact rolesNamed_boards h (runs_removeBoard hruns)

/-- Role references stay valid over every run that reactivates no account of a dropped role. -/
theorem role_references_valid (inputs : ℕ → Tick) {ops : List RoleOperation}
    (hreactivates : Admitted roleStep ReactivatesDefined (freshlySeeded inputs) ops) :
    RolesNamed (runAll roleStep (freshlySeeded inputs) ops).store :=
  runAll_induction (I := fun w => RolesNamed w.store)
    (fun _ _ h hop => rolesNamed_step h hop) (rolesNamed_freshlySeeded inputs) hreactivates

end steps

section sample

/-- The default document with one role more. -/
def withSeasonalRole : PolicyDocument :=
  { defaultPolicyDocument with roles := [userRole, adminRole, ⟨"seasonal", "Seasonal", []⟩] }

/-- A person of a new role is deactivated, the role dropped, and the person reactivated. -/
def seasonalRun : List RoleOperation :=
  [.applyPolicy 101 sampleActor withSeasonalRole,
    .createUser ⟨101, 102⟩ sampleActor ⟨"ada@example.com", "Ada", "seasonal"⟩ ⟨"once", "hash"⟩,
    .updateUser ⟨101, 102⟩ sampleActor 113 { isActive := some false } ⟨"once", "hash"⟩,
    .applyPolicy 101 sampleActor defaultPolicyDocument,
    .updateUser ⟨101, 102⟩ sampleActor 113 { isActive := some true } ⟨"once", "hash"⟩]

/-- The reactivated person has a role that nobody defines any more. -/
theorem role_reference_broken : ¬ ∀ (_ : Platform) (inputs : ℕ → Tick) (ops : List RoleOperation),
    RolesNamed (runAll roleStep (freshlySeeded inputs) ops).store := by
  intro h
  have hactive : ∃ row ∈ (@runAll _ _ (@roleStep samplePlatform) (freshlySeeded sampleTicks)
      seasonalRun).store.users.rows, row.user.isActive = true ∧ row.user.role ∉
        definedRoles (@runAll _ _ (@roleStep samplePlatform) (freshlySeeded sampleTicks)
          seasonalRun).store := by decide +kernel
  obtain ⟨row, hrow, hactive, hundefined⟩ := hactive
  exact hundefined ((h samplePlatform sampleTicks seasonalRun).users row hrow hactive)

theorem role_references_valid_staffed :
    Admitted (@roleStep samplePlatform) ReactivatesDefined (freshlySeeded sampleTicks)
        (seasonalRun.take 3 ++ seasonalRun.drop 4) ∧
      RolesNamed (@runAll _ _ (@roleStep samplePlatform) (freshlySeeded sampleTicks)
        (seasonalRun.take 3 ++ seasonalRun.drop 4)).store := by
  have hadmitted : Admitted (@roleStep samplePlatform) ReactivatesDefined
      (freshlySeeded sampleTicks) (seasonalRun.take 3 ++ seasonalRun.drop 4) := by decide +kernel
  exact ⟨hadmitted, @role_references_valid samplePlatform sampleTicks _ hadmitted⟩

end sample
end AiKanban.Invariants
