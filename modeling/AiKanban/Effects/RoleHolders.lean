import AiKanban.Effects.Roles

/-!
# Tokens and boards that name roles

What the token and the board service write, as far as it names a role.
-/
namespace AiKanban.Effects

open Domain Db Policy Relational Services Server Transactions
open Application

section tokens

variable {w w' : World Store Tick}

/-- Every live token was live before with its role, or has a defined role. -/
structure TokensGranted (s s' : Store) : Prop where
  frame : ∀ name, name ≠ .serviceTokens → s.SameTable name s'
  live : ∀ token ∈ s'.serviceTokens.rows, token.revokedAt = none →
    (∃ old ∈ s.serviceTokens.rows, old.revokedAt = none ∧ old.role = token.role) ∨
      token.role ∈ definedRoles s

theorem confined_createToken (boardId : Uuid) (actor : Actor) (raw : CreateServiceTokenInput)
    (minted : MintedToken) :
    Confined [.serviceTokens] (ServiceTokenService.create boardId actor raw minted) := by
  unfold ServiceTokenService.create
  refine confined_ofExcept fun _ => ?_
  refine confined_bind confined_newId fun _ => confined_bind confined_clockNow fun _ => ?_
  refine confined_reads (readsOnly_activePolicy _) fun _ => ?_
  refine confined_ofExcept fun _ => ?_
  refine confined_reads (Program.readsOnly_ensure _ _) fun _ => ?_
  exact confined_bind (confined_insertRow (List.mem_cons_self ..)) fun _ => confined_pure _

theorem confined_rotateToken (boardId : Uuid) (actor : Actor) (tokenId : Uuid)
    (minted : MintedToken) :
    Confined [.serviceTokens] (ServiceTokenService.rotate boardId actor tokenId minted) := by
  unfold ServiceTokenService.rotate ServiceTokenRepository.rotateHash
  refine confined_reads (readsOnly_ensureGranted _ _ _) fun _ => ?_
  refine confined_bind ?_ fun _ => confined_pure _
  refine confined_reads (Program.readsOnly_read _) fun _ => ?_
  refine confined_reads (Program.readsOnly_require _ _) fun _ => ?_
  refine confined_reads (Program.readsOnly_ensure _ _) fun _ => ?_
  exact confined_bind (confined_modifyRow fun _ => List.mem_cons_self ..) fun _ => confined_pure _

theorem confined_revokeToken (boardId : Uuid) (actor : Actor) (tokenId : Uuid) :
    Confined [.serviceTokens] (ServiceTokenService.revoke boardId actor tokenId) := by
  unfold ServiceTokenService.revoke ServiceTokenRepository.revoke
  refine confined_bind confined_clockNow fun _ => ?_
  refine confined_reads (readsOnly_ensureGranted _ _ _) fun _ => ?_
  refine confined_reads (Program.readsOnly_read _) fun _ => ?_
  refine confined_reads (Program.readsOnly_require _ _) fun _ => ?_
  exact confined_modifyWhere fun _ => List.mem_cons_self ..

theorem frame_of_confined {α : Type} {p : Tx α} {a : α} {table : TableName}
    (h : Runs p w a w') (hp : Confined [table] p) :
    ∀ name, name ≠ table → w.store.SameTable name w'.store :=
  fun _ hname => sameTable_of_confined h hp (by simpa using hname)

theorem runs_createToken {boardId : Uuid} {actor : Actor} {raw : CreateServiceTokenInput}
    {minted : MintedToken} {r : ServiceToken × MintedToken}
    (h : Runs (ServiceTokenService.create boardId actor raw minted) w r w') :
    TokensGranted w.store w'.store := by
  have hframe := frame_of_confined h (confined_createToken boardId actor raw minted)
  simp only [ServiceTokenService.create, loadActivePolicy, ServiceTokenRepository.insert,
    runs_bind_iff, runs_ofExcept_iff, runs_newId_iff, runs_clockNow_iff, runs_ensure_iff,
    runs_insertRow_iff, runs_pure_iff, put_serviceTokens, table_serviceTokens] at h
  obtain ⟨input, _, ⟨-, rfl⟩, id, _, ⟨-, rfl⟩, now, _, ⟨-, rfl⟩, policy, w₁, hpolicy, _, _,
    ⟨-, rfl⟩, _, _, ⟨hrole, rfl⟩, _, _, ⟨haccepts, -, rfl⟩, -, rfl⟩ := h
  obtain ⟨rfl, hroles⟩ := runs_activePolicy_roles hpolicy
  refine ⟨hframe, fun token htoken hlive => ?_⟩
  rcases Table.mem_insert.mp htoken with hold | ⟨-, rfl⟩
  · exact .inl ⟨token, hold, hlive, rfl⟩
  · exact .inr (runs_roleExists hroles hrole)

theorem runs_rotateToken {boardId : Uuid} {actor : Actor} {tokenId : Uuid} {minted : MintedToken}
    {r : ServiceToken × MintedToken}
    (h : Runs (ServiceTokenService.rotate boardId actor tokenId minted) w r w') :
    TokensGranted w.store w'.store := by
  have hframe := frame_of_confined h (confined_rotateToken boardId actor tokenId minted)
  simp only [ServiceTokenService.rotate, ServiceTokenRepository.rotateHash, runs_bind_iff,
    runs_selectKey_iff, runs_require_iff, runs_ensure_iff, runs_modifyRow_iff, runs_pure_iff,
    put_serviceTokens, table_serviceTokens] at h
  obtain ⟨_, w₀, hgranted, _, _, ⟨_, _, ⟨rfl, rfl⟩, _, _, ⟨-, rfl⟩, _, _, ⟨-, rfl⟩, _, _,
    ⟨row, hrow, -, -, rfl⟩, -, rfl⟩, -, rfl⟩ := h
  obtain rfl := hgranted.of_readsOnly (readsOnly_ensureGranted _ _ _)
  refine ⟨hframe, fun token htoken hlive => .inl ?_⟩
  rcases Table.mem_update htoken with hold | rfl
  · exact ⟨token, hold, hlive, rfl⟩
  · exact ⟨row, Table.mem_of_find? hrow, hlive, rfl⟩

theorem runs_revokeToken {boardId : Uuid} {actor : Actor} {tokenId : Uuid} {u : Unit}
    (h : Runs (ServiceTokenService.revoke boardId actor tokenId) w u w') :
    TokensGranted w.store w'.store := by
  have hframe := frame_of_confined h (confined_revokeToken boardId actor tokenId)
  simp only [ServiceTokenService.revoke, ServiceTokenRepository.revoke, runs_bind_iff,
    runs_clockNow_iff, runs_selectKey_iff, runs_require_iff, runs_modifyWhere_iff,
    put_serviceTokens, table_serviceTokens] at h
  obtain ⟨now, _, ⟨-, rfl⟩, _, w₀, hgranted, _, _, ⟨rfl, rfl⟩, _, _, ⟨-, rfl⟩, rfl⟩ := h
  obtain rfl := hgranted.of_readsOnly (readsOnly_ensureGranted _ _ _)
  refine ⟨hframe, fun token htoken hlive => .inl ?_⟩
  have hrows := Table.rows_foldl_updateWhere
    (f := fun r : ServiceToken => { r with revokedAt := some now })
    (fun _ => rfl) (fun _ _ => rfl) w.store.serviceTokens
    (fun r => r.id == tokenId && r.revokedAt.isNone)
  obtain ⟨old, hold, rfl⟩ := List.mem_map.mp (hrows ▸ htoken)
  split_ifs at hlive with hrevoked
  exact ⟨old, hold, hlive, by rw [if_neg hrevoked]⟩

end tokens

section boards

variable {w w' : World Store Tick}

/-- Every default of a role is for one of the given roles. -/
def DefaultsName (kept : List Role) (s : Store) : Prop :=
  ∀ d ∈ s.boardDefaults.rows, ∀ role, d.subject = .role role → role ∈ kept

theorem subjects_setDefault {P : DefaultSubject → Prop} {subject : DefaultSubject}
    {boardId : Option Uuid} {u : Unit} (hrows : ∀ d ∈ w.store.boardDefaults.rows, P d.subject)
    (hsubject : boardId ≠ none → P subject)
    (h : Runs (BoardRepository.setDefault subject boardId) w u w') :
    ∀ d ∈ w'.store.boardDefaults.rows, P d.subject := by
  cases boardId with
  | none =>
    simp only [BoardRepository.setDefault, runs_deleteWhere_iff, table_boardDefaults,
      put_boardDefaults] at h
    subst h
    intro d hd
    exact hrows d (Table.mem_remove.mp hd).1
  | some id =>
    obtain ⟨t, rfl, ht⟩ := runs_upsertRow h
    intro d hd
    rcases ht d hd with hold | rfl
    · exact hrows d hold
    · exact hsubject (by simp)

theorem subjects_dropDefaults {α : Type} {P : DefaultSubject → Prop} {subject : α → DefaultSubject}
    {as : List α} {u : Unit} (hrows : ∀ d ∈ w.store.boardDefaults.rows, P d.subject)
    (h : Runs (ensureEach as fun a => BoardRepository.setDefault (subject a) none) w u w') :
    ∀ d ∈ w'.store.boardDefaults.rows, P d.subject :=
  h.forEach_induction (I := fun w => ∀ d ∈ w.store.boardDefaults.rows, P d.subject)
    (fun _ _ _ _ _ hI hbody => subjects_setDefault hI (fun hnone => absurd rfl hnone) hbody) hrows

theorem runs_validateAccess {roleKeys : List Role} {userIds groupIds : List Uuid} {u : Unit}
    (h : Runs (BoardService.validateAccess roleKeys userIds groupIds) w u w') :
    w' = w ∧ ∀ role ∈ roleKeys, role ∈ definedRoles w.store := by
  refine ⟨h.of_readsOnly (readsOnly_validateAccess _ _ _), fun role hrole => ?_⟩
  simp only [BoardService.validateAccess, runs_bind_iff, runs_ensure_iff] at h
  obtain ⟨policy, _, hpolicy, _, _, ⟨hall, rfl⟩, -⟩ := h
  obtain ⟨rfl, hroles⟩ := runs_globalPolicy hpolicy
  simpa [definedRoles, hroles] using List.all_eq_true.mp hall role hrole

/-- What the checks let through is there: the groups too. -/
theorem groups_of_validateAccess {roleKeys : List Role} {userIds groupIds : List Uuid} {u : Unit}
    (h : Runs (BoardService.validateAccess roleKeys userIds groupIds) w u w') :
    ∀ id ∈ groupIds, ∃ group, w.store.groups.find? id = some group := by
  intro id hid
  simp only [BoardService.validateAccess, runs_bind_iff, runs_ensure_iff] at h
  obtain ⟨policy, _, hpolicy, _, _, ⟨-, rfl⟩, _, w₁, husers, hgroups⟩ := h
  obtain ⟨rfl, -⟩ := runs_globalPolicy hpolicy
  obtain rfl := husers.of_readsOnly (readsOnly_forEach readsOnly_requireUser _)
  obtain ⟨_, hrequire⟩ := runs_forEach_reads readsOnly_requireGroup hgroups
    (List.mem_eraseDups.mpr hid)
  simp only [BoardService.requireGroup, GroupRepository.findById, runs_bind_iff,
    runs_selectKey_iff, runs_requireFound_iff, runs_pure_iff, table_groups] at hrequire
  obtain ⟨_, _, ⟨rfl, rfl⟩, group, _, ⟨hfound, -⟩, -⟩ := hrequire
  exact ⟨group, hfound⟩

/-- A saved default was there before, or is one of the validated assignments. -/
theorem subjects_saveDefaults {P : DefaultSubject → Prop} {boardId : Uuid}
    {input : Option DefaultAssignments} {u : Unit}
    (h : Runs (BoardService.saveDefaults boardId input) w u w')
    (hrows : ∀ d ∈ w.store.boardDefaults.rows, P d.subject)
    (hdesired : ∀ assignments, input = some assignments →
      (∀ role ∈ assignments.roleKeys, role ∈ definedRoles w.store) →
      (∀ id ∈ assignments.groupIds, ∃ group, w.store.groups.find? id = some group) →
      ∀ subject ∈ BoardService.desiredDefaults assignments, P subject) :
    ∀ d ∈ w'.store.boardDefaults.rows, P d.subject := by
  cases input with
  | none =>
    obtain ⟨-, rfl⟩ := runs_pure_iff.mp h
    exact hrows
  | some input =>
    simp only [BoardService.saveDefaults, BoardRepository.listDefaults, runs_bind_iff,
      runs_selectWhere_iff] at h
    obtain ⟨_, _, hvalidate, _, w, ⟨-, rfl⟩, _, w₁, hdrop, hsave⟩ := h
    have hgroups := groups_of_validateAccess hvalidate
    obtain ⟨rfl, hroles⟩ := runs_validateAccess hvalidate
    exact hsave.forEach_induction (I := fun w => ∀ d ∈ w.store.boardDefaults.rows, P d.subject)
      (fun subject hmem _ _ _ hI hbody =>
        subjects_setDefault hI (fun _ => hdesired input rfl hroles hgroups subject hmem) hbody)
      (subjects_dropDefaults hrows hdrop)

theorem runs_saveDefaults {boardId : Uuid} {input : Option DefaultAssignments} {u : Unit}
    (h : Runs (BoardService.saveDefaults boardId input) w u w')
    (hdefaults : DefaultsName (definedRoles w.store) w.store) :
    DefaultsName (definedRoles w.store) w'.store := by
  refine subjects_saveDefaults (P := fun subject => ∀ role, subject = .role role →
    role ∈ definedRoles w.store) h hdefaults ?_
  intro assignments _ hroles _ subject hmem role hrole
  subst hrole
  exact hroles role (by simpa [BoardService.desiredDefaults] using hmem)

theorem globalPolicyOf_congr {s s' : Store}
    (hdefault : (s'.boards.rows.find? (·.isDefault)).map (·.id) =
      (s.boards.rows.find? (·.isDefault)).map (·.id))
    (hnewest : ∀ id, (s.boards.rows.find? (·.isDefault)).map (·.id) = some id →
      PolicyRepository.newest s' id = PolicyRepository.newest s id) :
    globalPolicyOf s' = globalPolicyOf s := by
  unfold globalPolicyOf
  cases hs : s.boards.rows.find? (·.isDefault) with
  | none =>
    rw [hs, Option.map_none] at hdefault
    rw [Option.map_eq_none_iff.mp hdefault, Option.bind_none, Option.bind_none]
  | some board =>
    rw [hs, Option.map_some] at hdefault
    obtain ⟨board', hs', hid⟩ := Option.map_eq_some_iff.mp hdefault
    rw [hs', Option.bind_some, Option.bind_some, hid]
    exact hnewest board.id (by rw [hs, Option.map_some])

/-- Rewriting a board, with its flag as it was, leaves the default board the default. -/
theorem default_update {t : Table Board} {current board : Board} (hcurrent : current ∈ t.rows)
    (hid : board.id = current.id) (hflag : board.isDefault = current.isDefault) :
    ((t.update board).rows.find? (·.isDefault)).map (·.id) =
      (t.rows.find? (·.isDefault)).map (·.id) := by
  cases haccepts : t.acceptsUpdate board with
  | false => rw [Table.update_eq_self haccepts]
  | true =>
    rw [Table.rows_update haccepts, List.find?_map, Option.map_map]
    have hsame : t.rows.find? ((·.isDefault) ∘ fun x => if Row.key x = Row.key board then board
        else x) = t.rows.find? (·.isDefault) := by
      refine List.find?_congr fun x hx => ?_
      simp only [Function.comp_apply]
      split_ifs with hkey
      · have heq : x = current := Table.eq_of_key hx hcurrent (hkey.trans hid)
        rw [heq, hflag]
      · rfl
    rw [hsame]
    refine Option.map_congr fun x _ => ?_
    simp only [Function.comp_apply]
    split_ifs with hkey
    · exact hkey.symm
    · rfl

/-- `BoardRepository.update` on a board that is there. -/
theorem runs_updateBoardRow {current board : Board} {u : Unit}
    (hcurrent : current ∈ w.store.boards.rows) (hid : board.id = current.id)
    (h : Runs (BoardRepository.update board) w u w') :
    w' = w.withStore { w.store with boards := w.store.boards.update board } := by
  simp only [BoardRepository.update, runs_modifyWhere_iff, put_boards] at h
  have hone : w.store.boards.rows.filter (fun r : Board => r.id == board.id) = [current] := by
    rw [hid, ← Table.filter_key hcurrent]
    rfl
  rw [h]
  simp [hone]

theorem definedRoles_congr {s s' : Store} (h : globalPolicyOf s' = globalPolicyOf s) :
    definedRoles s' = definedRoles s := by
  rw [definedRoles, definedRoles, globalRoles, globalRoles, h]

/-- A board that is active now was there before, or names defined roles only. -/
structure BoardsGranted (s s' : Store) : Prop where
  users : s'.users = s.users
  tokens : s'.serviceTokens = s.serviceTokens
  global : globalPolicyOf s' = globalPolicyOf s
  active : ∀ board ∈ s'.boards.rows, board.archivedAt = none →
    board ∈ s.boards.rows ∨ ∀ role ∈ board.allowedRoleKeys, role ∈ definedRoles s
  defaults : DefaultsName (definedRoles s) s → DefaultsName (definedRoles s) s'

/-- The global policy does not depend on a board that is not the default one. -/
theorem globalPolicyOf_insert {s : Store} {board : Board} (hflag : board.isDefault = false) :
    ((s.boards.insert board).rows.find? (·.isDefault)).map (·.id) =
      (s.boards.rows.find? (·.isDefault)).map (·.id) := by
  cases haccepts : s.boards.accepts board with
  | false => rw [Table.insert_eq_self haccepts]
  | true => simp [Table.rows_insert haccepts, List.find?_append, hflag]

theorem runs_createBoard {actor : Actor} {raw : BoardInput} {board : Board}
    (h : Runs (BoardService.create actor raw) w board w') :
    BoardsGranted w.store w'.store := by
  have hframe : ∀ name, name ∉ [TableName.boards, .boardDefaults, .lanes, .boardPolicies] →
      w.store.SameTable name w'.store :=
    fun name hname => sameTable_of_confined h (confined_createBoard actor raw) hname
  simp only [BoardService.create, BoardRepository.insert, runs_bind_iff, runs_ofExcept_iff,
    runs_newId_iff, runs_clockNow_iff, runs_insertRow_iff, runs_pure_iff, table_boards,
    put_boards] at h
  obtain ⟨input, _, ⟨-, rfl⟩, _, _, hlock, _, w, haccess, id, _, ⟨-, rfl⟩, now, _, ⟨-, rfl⟩, _, _,
    ⟨haccepts, -, rfl⟩, _, w₂, hsaved, _, w₃, hlanes, _, _, ⟨-, rfl⟩, _, _, hglobal, _, w₄,
    hversion, -, rfl⟩ := h
  obtain rfl := hlock.of_readsOnly (readsOnly_lockAdministration _)
  obtain ⟨rfl, hkeys⟩ := runs_validateAccess haccess
  obtain ⟨rfl, -⟩ := runs_globalPolicy hglobal
  generalize hcreated : Board.mk id _ _ _ _ _ _ _ _ = created at haccepts hsaved
  generalize hw₁ : w.tick.tick.withStore _ = w₁ at hsaved
  have hboards₁ : w₁.store.boards = w.store.boards.insert created := by rw [← hw₁]; rfl
  have hpolicies₁ : w₁.store.boardPolicies = w.store.boardPolicies := by rw [← hw₁]; rfl
  have hdefaults₁ : w₁.store.boardDefaults = w.store.boardDefaults := by rw [← hw₁]; rfl
  have hsaves : ∀ name, name ≠ .boardDefaults → w₁.store.SameTable name w₂.store :=
    frame_of_confined hsaved (confined_saveDefaults (by simp) _ _)
  have hlaneRows : ∀ name, name ≠ .lanes → w₂.store.SameTable name w₃.store :=
    frame_of_confined hlanes (confined_insertDefaultLanes (by simp) _)
  obtain ⟨hpolicyRows, hnewest⟩ := runs_insertPolicy hversion
  have hboards : w'.store.boards = w.store.boards.insert created :=
    Eq.trans (hpolicyRows .boards (by decide)) <| Eq.trans (hlaneRows .boards (by decide)) <|
      Eq.trans (hsaves .boards (by decide)) hboards₁
  have hdefault : ((w.store.boards.insert created).rows.find? (·.isDefault)).map (·.id) =
      (w.store.boards.rows.find? (·.isDefault)).map (·.id) :=
    globalPolicyOf_insert (by rw [← hcreated])
  have hglobal₁ : globalPolicyOf w₁.store = globalPolicyOf w.store :=
    globalPolicyOf_congr (by rw [hboards₁, hdefault]) fun boardId _ => newest_congr hpolicies₁ _
  have hpolicies₃ : w₃.store.boardPolicies = w.store.boardPolicies :=
    Eq.trans (hlaneRows .boardPolicies (by decide)) <|
      Eq.trans (hsaves .boardPolicies (by decide)) hpolicies₁
  refine ⟨hframe .users (by decide), hframe .serviceTokens (by decide), ?_, ?_, ?_⟩
  · refine globalPolicyOf_congr (by rw [hboards, hdefault]) fun boardId hboardId => ?_
    obtain ⟨authority, hauthority, rfl⟩ := Option.map_eq_some_iff.mp hboardId
    rcases hnewest authority.id with ⟨-, hid⟩ | hold
    · -- the new board is another one than the default board
      have hnone := Table.find?_of_accepts haccepts
      have hmem : authority ∈ w.store.boards.rows := List.mem_of_find?_eq_some hauthority
      refine absurd ?_ (Table.find?_eq_none_iff.mp hnone authority hmem)
      rw [← hcreated]
      exact hid.symm
    · exact hold.trans (newest_congr hpolicies₃ _)
  · intro row hrow _
    rw [hboards] at hrow
    rcases Table.mem_insert.mp hrow with hold | ⟨-, rfl⟩
    · exact .inl hold
    · rw [← hcreated]
      exact .inr hkeys
  · intro hnames
    have hnames₁ : DefaultsName (definedRoles w₁.store) w₁.store := by
      rw [DefaultsName, hdefaults₁, definedRoles_congr hglobal₁]
      exact hnames
    have hnames₂ := runs_saveDefaults hsaved hnames₁
    rw [definedRoles_congr hglobal₁] at hnames₂
    have hdefaults : w'.store.boardDefaults = w₂.store.boardDefaults :=
      Eq.trans (hpolicyRows .boardDefaults (by decide)) (hlaneRows .boardDefaults (by decide))
    rw [DefaultsName, hdefaults]
    exact hnames₂

theorem runs_updateBoard {actor : Actor} {boardId : Uuid} {raw : BoardInput} {board : Board}
    (h : Runs (BoardService.update actor boardId raw) w board w') :
    BoardsGranted w.store w'.store := by
  have hframe : ∀ name, name ∉ [TableName.boards, .boardDefaults] →
      w.store.SameTable name w'.store :=
    fun name hname => sameTable_of_confined h (confined_updateBoard actor boardId raw) hname
  simp only [BoardService.update, runs_bind_iff, runs_ofExcept_iff, runs_pure_iff] at h
  obtain ⟨input, _, ⟨-, rfl⟩, _, _, hlock, current, _, haccess, _, w, hvalidate, _, w₁, hrow, _, _,
    hsaved, -, rfl⟩ := h
  obtain rfl := hlock.of_readsOnly (readsOnly_lockAdministration _)
  obtain ⟨rfl, hfound⟩ := runs_requireBoardAccess haccess
  obtain ⟨rfl, hkeys⟩ := runs_validateAccess hvalidate
  have hcurrent := Table.mem_of_find? hfound
  generalize hupdated : Board.mk current.id _ _ _ _ _ _ _ _ = updated at hrow
  have hid : updated.id = current.id := by rw [← hupdated]
  obtain rfl := runs_updateBoardRow hcurrent hid hrow
  have hsaves := frame_of_confined hsaved (confined_saveDefaults (List.mem_singleton.mpr rfl) _ _)
  have hboards : w'.store.boards = w.store.boards.update updated := hsaves .boards (by decide)
  have hdefault : ((w.store.boards.update updated).rows.find? (·.isDefault)).map (·.id) =
      (w.store.boards.rows.find? (·.isDefault)).map (·.id) :=
    default_update hcurrent hid (by rw [← hupdated])
  have hglobal₁ : globalPolicyOf { w.store with boards := w.store.boards.update updated } =
      globalPolicyOf w.store := globalPolicyOf_congr hdefault fun _ _ => rfl
  refine ⟨hframe .users (by decide), hframe .serviceTokens (by decide), ?_, ?_, ?_⟩
  · exact globalPolicyOf_congr (by rw [hboards, hdefault]) fun id _ =>
      newest_congr (hframe .boardPolicies (by decide)) id
  · intro row hrow _
    rw [hboards] at hrow
    rcases Table.mem_update hrow with hold | rfl
    · exact .inl hold
    · rw [← hupdated]
      exact .inr hkeys
  · intro hnames
    rw [← definedRoles_congr hglobal₁] at hnames
    have hnames' := runs_saveDefaults hsaved hnames
    rwa [World.withStore_store, definedRoles_congr hglobal₁] at hnames'

theorem runs_removeBoard {actor : Actor} {boardId : Uuid} {u : Unit}
    (h : Runs (BoardService.remove actor boardId) w u w') : BoardsGranted w.store w'.store := by
  have hframe := frame_of_confined h (confined_removeBoard actor boardId)
  simp only [BoardService.remove, BoardRepository.list, runs_bind_iff, runs_read_iff,
    runs_ensure_iff, runs_clockNow_iff] at h
  obtain ⟨_, _, hlock, current, _, haccess, _, _, ⟨-, rfl⟩, _, w, ⟨-, rfl⟩, now, _, ⟨-, rfl⟩,
    hrow⟩ := h
  obtain rfl := hlock.of_readsOnly (readsOnly_lockAdministration _)
  obtain ⟨rfl, hfound⟩ := runs_requireBoardAccess haccess
  have hcurrent := Table.mem_of_find? hfound
  generalize hremoved : Board.mk current.id _ _ _ _ _ _ _ _ = removed at hrow
  have hid : removed.id = current.id := by rw [← hremoved]
  obtain rfl := runs_updateBoardRow (w := w.tick) hcurrent hid hrow
  refine ⟨rfl, rfl, ?_, ?_, id⟩
  · exact globalPolicyOf_congr (default_update hcurrent hid (by rw [← hremoved])) fun _ _ => rfl
  · intro row hrow hactive
    rcases Table.mem_update hrow with hold | rfl
    · exact .inl hold
    · rw [← hremoved] at hactive
      cases hactive

end boards
end AiKanban.Effects
