import AiKanban.Effects.Lifecycle

/-!
# What administration leaves alone

Policies, boards, groups, lanes, locations and users: none of their operations but
the deletion of a location writes a card, or what hangs on one, and no lane that
still holds a card loses its key.
-/
namespace AiKanban.Effects

open Domain Db Policy Relational Services Server Transactions

/-- The tables the administration may write. -/
def adminTables : List TableName :=
  [.users, .boards, .boardDefaults, .groups, .lanes, .locations, .boardPolicies, .sessions,
    .oauthAuthorizationCodes, .oauthAccessTokens, .oauthRefreshTokens]

/-- Every lane is still there, with its key and its board. -/
def LaneRows (s s' : Store) : Prop :=
  ∀ lane ∈ s.lanes.rows, ∃ lane' ∈ s'.lanes.rows,
    lane'.id = lane.id ∧ lane'.key = lane.key ∧ lane'.boardId = lane.boardId

/-- Every lane of a card is still there, with its key and its board. -/
def LanesKept (s s' : Store) : Prop :=
  ∀ card ∈ s.cards.rows, ∀ lane, LaneOf s card lane → ∃ lane', LaneOf s' card lane' ∧
    lane'.key = lane.key

theorem LaneRows.refl (s : Store) : LaneRows s s := fun lane h => ⟨lane, h, rfl, rfl, rfl⟩

theorem LaneRows.trans {s₁ s₂ s₃ : Store} (h : LaneRows s₁ s₂) (h' : LaneRows s₂ s₃) :
    LaneRows s₁ s₃ := by
  intro lane hlane
  obtain ⟨lane₂, hmem₂, hid₂, hkey₂, hboard₂⟩ := h lane hlane
  obtain ⟨lane₃, hmem₃, hid₃, hkey₃, hboard₃⟩ := h' lane₂ hmem₂
  exact ⟨lane₃, hmem₃, hid₃.trans hid₂, hkey₃.trans hkey₂, hboard₃.trans hboard₂⟩

instance : Std.Refl LaneRows := ⟨LaneRows.refl⟩
instance : IsTrans Store LaneRows := ⟨fun _ _ _ => LaneRows.trans⟩

theorem LaneRows.of_lanes {s s' : Store} (h : s'.lanes = s.lanes) : LaneRows s s' := by
  intro lane hlane
  exact ⟨lane, by rwa [h], rfl, rfl, rfl⟩

theorem LaneRows.kept {s s' : Store} (h : LaneRows s s') : LanesKept s s' := by
  rintro card - lane ⟨hmem, hid, hboard⟩
  obtain ⟨lane', hmem', hid', hkey, hboard'⟩ := h lane hmem
  exact ⟨lane', ⟨hmem', hid'.trans hid, hboard'.trans hboard⟩, hkey⟩

theorem LanesKept.of_lanes {s s' : Store} (h : s'.lanes = s.lanes) : LanesKept s s' :=
  (LaneRows.of_lanes h).kept

theorem laneRows_of_confined {α : Type} {names : List TableName} {p : Tx α}
    (hp : Confined names p) (hname : TableName.lanes ∉ names) : Preserves LaneRows p := by
  intro w a w' h
  exact .of_lanes (sameTable_of_confined h hp hname)

section lanes

theorem laneRows_insert (lane : Lane) : Preserves LaneRows (LaneRepository.insert lane) := by
  intro w u w' h row hrow
  simp only [LaneRepository.insert, runs_insertRow_iff, table_lanes, put_lanes] at h
  obtain ⟨-, -, rfl⟩ := h
  exact ⟨row, Table.mem_insert.mpr (.inl hrow), rfl, rfl, rfl⟩

theorem laneRows_update (lane : Lane) : Preserves LaneRows (LaneRepository.update lane) := by
  intro w u w' h row hrow
  simp only [LaneRepository.update, runs_modifyRow_iff, table_lanes, put_lanes] at h
  obtain ⟨found, hfound, haccepts, -, rfl⟩ := h
  rw [World.withStore_store, Table.rows_update haccepts]
  by_cases hid : row.id = found.id
  · have heq : row = found := Table.eq_of_key hrow (Table.mem_of_find? hfound) hid
    exact ⟨_, List.mem_map.mpr ⟨row, hrow, if_pos hid⟩, by simp [heq], by simp [heq], by simp [heq]⟩
  · exact ⟨row, List.mem_map.mpr ⟨row, hrow, if_neg hid⟩, rfl, rfl, rfl⟩

/-- A new order changes positions only. -/
theorem laneRows_reorder (boardId : Uuid) (orderedIds : List Uuid) :
    Preserves LaneRows (LaneRepository.reorder boardId orderedIds) := by
  refine preserves_forEach (fun place => ?_) _
  intro w u w' h row hrow
  simp only [runs_modifyWhere_iff, table_lanes, put_lanes] at h
  subst h
  rw [World.withStore_store,
    Table.rows_foldl_updateWhere (f := fun r : Lane => { r with position := place.2 })
      (fun _ => rfl) (fun _ _ => rfl)]
  refine ⟨_, List.mem_map.mpr ⟨row, hrow, rfl⟩, ?_⟩
  split_ifs <;> exact ⟨rfl, rfl, rfl⟩

end lanes

section checks

theorem readsOnly_forEach {α : Type} {body : α → Tx Unit} (h : ∀ a, (body a).ReadsOnly)
    (as : List α) : (Program.forEach body as).ReadsOnly := by
  induction as with
  | nil => exact Program.readsOnly_pure _
  | cons a as ih => exact (h a).bind fun _ => ih

/-- Every visit of a list that only reads has succeeded where the list was begun. -/
theorem runs_forEach_reads {α : Type} {body : α → Tx Unit} (hreads : ∀ a, (body a).ReadsOnly)
    {as : List α} {u : Unit} {w w' : World Store Tick}
    (h : Runs (Program.forEach body as) w u w') {a : α} (ha : a ∈ as) :
    ∃ u, Runs (body a) w u w := by
  induction as generalizing w with
  | nil => cases ha
  | cons b as ih =>
    obtain ⟨u₁, w₁, hb, has⟩ := runs_progBind_iff.mp h
    obtain rfl := hb.of_readsOnly (hreads b)
    rcases List.mem_cons.mp ha with rfl | ha
    · exact ⟨u₁, hb⟩
    · exact ih has ha

theorem readsOnly_ensureGranted (actor : Actor) (perm : Permission) (boardId : Uuid) :
    (ensureGranted actor perm boardId).ReadsOnly :=
  (readsOnly_activePolicy _).bind fun _ => Program.readsOnly_ofExcept _

theorem readsOnly_authorize (boardId : Uuid) (actor : Actor) :
    (LaneAdminService.authorize boardId actor).ReadsOnly :=
  (readsOnly_requireBoardAccess _ _).bind fun _ => readsOnly_ensureGranted _ _ _

theorem readsOnly_lockAdministration (actor : Actor) :
    (BoardService.lockAdministration actor).ReadsOnly :=
  (Program.readsOnly_read _).bind fun _ => (readsOnly_requireFound _ _).bind fun _ =>
    (Program.readsOnly_read _).bind fun _ => (readsOnly_requireFound _ _).bind fun _ =>
      Program.readsOnly_ofExcept _

theorem readsOnly_requireUser (id : Uuid) : (BoardService.requireUser id).ReadsOnly :=
  (Program.readsOnly_read _).bind fun _ => (readsOnly_requireFound _ _).bind fun _ =>
    Program.readsOnly_pure _

theorem readsOnly_requireGroup (id : Uuid) : (BoardService.requireGroup id).ReadsOnly :=
  (Program.readsOnly_read _).bind fun _ => (readsOnly_requireFound _ _).bind fun _ =>
    Program.readsOnly_pure _

theorem readsOnly_validateAccess (roleKeys : List Role) (userIds groupIds : List Uuid) :
    (BoardService.validateAccess roleKeys userIds groupIds).ReadsOnly :=
  readsOnly_globalPolicy.bind fun _ => (Program.readsOnly_ensure _ _).bind fun _ =>
    (readsOnly_forEach readsOnly_requireUser _).bind fun _ =>
      readsOnly_forEach readsOnly_requireGroup _

theorem readsOnly_existingGroup (groupId : Option Uuid) :
    (BoardService.existingGroup groupId).ReadsOnly := by
  cases groupId with
  | none => exact Program.readsOnly_pure _
  | some id =>
    exact (Program.readsOnly_read _).bind fun _ => (readsOnly_requireFound _ _).bind fun _ =>
      Program.readsOnly_pure _

theorem readsOnly_getActivePolicy (boardId : Uuid) : (PolicyService.getActive boardId).ReadsOnly :=
  (Program.readsOnly_read _).bind fun _ => (readsOnly_requireFound _ _).bind fun _ =>
    readsOnly_globalPolicy.bind fun _ => Program.readsOnly_pure _

theorem readsOnly_ensureNoOrphanedRole (kept : List Role) :
    (PolicyService.ensureNoOrphanedRole kept).ReadsOnly := by
  refine (Program.readsOnly_read _).bind fun boards => (Program.readsOnly_ensure _ _).bind fun _ =>
    (Program.readsOnly_read _).bind fun users => ?_
  split
  · trivial
  · refine (Program.readsOnly_read _).bind fun tokens => ?_
    split
    · trivial
    · exact Program.readsOnly_pure _

theorem readsOnly_ensureParent (kind : LocationKind) (parentId : Option Uuid) :
    (LocationAdminService.ensureParent kind parentId).ReadsOnly := by
  unfold LocationAdminService.ensureParent
  split
  · exact Program.readsOnly_pure _
  · trivial
  · trivial
  · exact (Program.readsOnly_read _).bind fun _ => (readsOnly_requireFound _ _).bind fun _ =>
      Program.readsOnly_ensure _ _

theorem readsOnly_ensureUniqueSiblingName [Platform] (parentId : Option Uuid) (name : String)
    (selfId : Option Uuid) :
    (LocationAdminService.ensureUniqueSiblingName parentId name selfId).ReadsOnly :=
  (Program.readsOnly_read _).bind fun _ => Program.readsOnly_ensure _ _

theorem readsOnly_ensureOtherAdmin (deps : UserAdminServiceDeps) (adminRoles : List Role)
    (found : User) (input : UpdateUserInput) :
    (UserAdminService.ensureOtherAdmin deps adminRoles found input).ReadsOnly := by
  unfold UserAdminService.ensureOtherAdmin
  split_ifs
  · exact (Program.readsOnly_read _).bind fun _ => Program.readsOnly_ensure _ _
  · exact Program.readsOnly_pure _

end checks

section confined

variable {names : List TableName}

theorem confined_setDefault (h : TableName.boardDefaults ∈ names) (subject : DefaultSubject)
    (boardId : Option Uuid) : Confined names (BoardRepository.setDefault subject boardId) := by
  cases boardId with
  | none => exact confined_deleteWhere fun _ => h
  | some id => exact ⟨writes_upsertRow h fun _ _ => h⟩

theorem confined_saveDefaults (h : TableName.boardDefaults ∈ names) (boardId : Uuid)
    (assignments : Option DefaultAssignments) :
    Confined names (BoardService.saveDefaults boardId assignments) := by
  cases assignments with
  | none => exact confined_pure _
  | some input =>
    refine confined_reads (readsOnly_validateAccess _ _ _) fun _ => ?_
    refine confined_reads (Program.readsOnly_read _) fun _ => ?_
    refine confined_bind (confined_forEach (fun _ => confined_setDefault h _ _) _) fun _ => ?_
    exact confined_forEach (fun _ => confined_setDefault h _ _) _

theorem confined_writeBoard (h : TableName.boards ∈ names) (board : Board) :
    Confined names (BoardRepository.update board) :=
  confined_modifyWhere fun _ => h

theorem confined_updateBoard (actor : Actor) (boardId : Uuid) (raw : BoardInput) :
    Confined [.boards, .boardDefaults] (BoardService.update actor boardId raw) := by
  unfold BoardService.update
  refine confined_ofExcept fun _ => ?_
  refine confined_reads (readsOnly_lockAdministration _) fun _ => ?_
  refine confined_reads (readsOnly_requireBoardAccess _ _) fun _ => ?_
  refine confined_reads (readsOnly_validateAccess _ _ _) fun _ => ?_
  refine confined_bind (confined_writeBoard (by simp) _) fun _ => ?_
  exact confined_bind (confined_saveDefaults (by simp) _ _) fun _ => confined_pure _

theorem confined_removeBoard (actor : Actor) (boardId : Uuid) :
    Confined [.boards] (BoardService.remove actor boardId) := by
  unfold BoardService.remove
  refine confined_reads (readsOnly_lockAdministration _) fun _ => ?_
  refine confined_reads (readsOnly_requireBoardAccess _ _) fun _ => ?_
  refine confined_reads (Program.readsOnly_read _) fun _ => ?_
  refine confined_reads (Program.readsOnly_ensure _ _) fun _ => ?_
  exact confined_bind confined_clockNow fun _ => confined_writeBoard (by simp) _

theorem confined_setPreference (actor : Actor) (boardId : Option Uuid) :
    Confined [.boardDefaults] (BoardService.setPreference actor boardId) := by
  unfold BoardService.setPreference
  refine confined_reads (Program.readsOnly_ensure _ _) fun _ => ?_
  refine confined_reads (Program.readsOnly_read _) fun _ => ?_
  refine confined_reads (readsOnly_requireFound _ _) fun _ => ?_
  refine confined_reads (Program.readsOnly_read _) fun _ => ?_
  cases boardId with
  | none => exact confined_setDefault (by simp) _ _
  | some id =>
    refine confined_reads (readsOnly_requireBoardAccess _ _) fun _ => ?_
    exact confined_setDefault (by simp) _ _

theorem confined_removeGroup (actor : Actor) (groupId : Uuid) :
    Confined [.groups, .boardDefaults] (BoardService.removeGroup actor groupId) := by
  unfold BoardService.removeGroup
  refine confined_reads (readsOnly_lockAdministration _) fun _ => ?_
  refine confined_reads (readsOnly_requireGroup _) fun _ => ?_
  refine confined_reads (Program.readsOnly_read _) fun _ => ?_
  refine confined_reads (Program.readsOnly_ensure _ _) fun _ => ?_
  refine confined_bind (confined_deleteWhere fun _ => List.mem_cons_self ..) fun _ => ?_
  exact confined_setDefault (by simp) _ _

theorem confined_updateLane (boardId : Uuid) (actor : Actor) (laneId : Uuid) (raw : UpdateLaneInput) :
    Confined [.lanes] (LaneAdminService.update boardId actor laneId raw) := by
  unfold LaneAdminService.update
  refine confined_ofExcept fun _ => ?_
  refine confined_reads (readsOnly_authorize _ _) fun _ => ?_
  refine confined_reads (Program.readsOnly_read _) fun _ => ?_
  refine confined_reads (Program.readsOnly_require _ _) fun _ => ?_
  exact confined_bind (confined_modifyRow fun _ => List.mem_cons_self ..) fun _ => confined_pure _

theorem confined_deleteLaneRow (laneId : Uuid) : Confined [.lanes] (LaneRepository.remove laneId) := by
  refine ⟨Program.writes_write fun v ws hws x hx => ?_⟩
  cases hv : v.lanes.find? laneId with
  | none =>
    simp only [hv] at hws
    cases hws
  | some lane =>
    simp only [hv] at hws
    split_ifs at hws
    cases hws
    rw [List.mem_singleton.mp hx]
    exact List.mem_cons_self ..

theorem confined_removeLane (boardId : Uuid) (actor : Actor) (laneId : Uuid) :
    Confined [.lanes] (LaneAdminService.remove boardId actor laneId) := by
  unfold LaneAdminService.remove
  refine confined_reads (readsOnly_authorize _ _) fun _ => ?_
  refine confined_reads (Program.readsOnly_read _) fun _ => ?_
  refine confined_reads (Program.readsOnly_require _ _) fun _ => ?_
  refine confined_reads (Program.readsOnly_ensure _ _) fun _ => ?_
  refine confined_reads (readsOnly_edgeOfLane _ _) fun _ => ?_
  exact confined_reads (Program.readsOnly_ensure _ _) fun _ => confined_deleteLaneRow _

theorem confined_reorderLanes (boardId : Uuid) (actor : Actor) (raw : ReorderLanesInput) :
    Confined [.lanes] (LaneAdminService.reorder boardId actor raw) := by
  unfold LaneAdminService.reorder
  refine confined_ofExcept fun _ => ?_
  refine confined_reads (readsOnly_authorize _ _) fun _ => ?_
  refine confined_reads (Program.readsOnly_read _) fun _ => ?_
  refine confined_reads (Program.readsOnly_ensure _ _) fun _ => ?_
  refine confined_bind (confined_forEach (fun _ => ?_) _) fun _ => ?_
  · exact confined_modifyWhere fun _ => List.mem_cons_self ..
  · exact confined_readsOnly (Program.readsOnly_read _)

/-- Where the credentials of a user are kept. -/
def credentialTables : List TableName :=
  [.users, .sessions, .oauthAuthorizationCodes, .oauthAccessTokens, .oauthRefreshTokens]

/-- The tables a revocation of credentials writes; the account itself is not among them. -/
def revocationTables : List TableName :=
  [.sessions, .oauthAuthorizationCodes, .oauthAccessTokens, .oauthRefreshTokens]

theorem confined_revokeUserCredentials (userId : Uuid) (kept : Option String) :
    Confined revocationTables (UserAdminService.revokeUserCredentials userId kept) := by
  unfold UserAdminService.revokeUserCredentials
  refine confined_bind (confined_deleteWhere fun _ => ?_) fun _ => ?_
  · exact List.mem_cons_self ..
  refine confined_bind (confined_deleteWhere fun _ => ?_) fun _ => ?_
  · exact List.mem_cons_of_mem _ (List.mem_cons_self ..)
  refine confined_bind (confined_bind confined_clockNow fun _ => confined_modifyWhere fun _ => ?_)
    fun _ => ?_
  · exact List.mem_of_elem_eq_true rfl
  exact confined_bind confined_clockNow fun _ => confined_modifyWhere fun _ =>
    List.mem_of_elem_eq_true rfl

theorem confined_updateUser (deps : UserAdminServiceDeps) (actor : Actor) (userId : Uuid)
    (raw : UpdateUserInput) (temp : TempPassword) :
    Confined credentialTables (UserAdminService.update deps actor userId raw temp) := by
  unfold UserAdminService.update
  refine confined_ofExcept fun _ => ?_
  refine confined_reads (readsOnly_activePolicy _) fun _ => ?_
  refine confined_ofExcept fun _ => ?_
  refine confined_reads (readsOnly_forPresent fun _ => Program.readsOnly_ensure _ _) fun _ => ?_
  refine confined_reads (Program.readsOnly_read _) fun _ => ?_
  refine confined_reads (readsOnly_requireFound _ _) fun _ => ?_
  refine confined_reads (readsOnly_ensureOtherAdmin _ _ _ _) fun _ => ?_
  refine confined_bind (confined_modifyRow fun _ => List.mem_of_elem_eq_true rfl) fun _ => ?_
  have hpassword : Confined credentialTables
      (UserAccountRepository.setPassword userId temp.hash true) :=
    confined_modifyRow fun _ => List.mem_of_elem_eq_true rfl
  have hrevoke : Confined credentialTables (UserAdminService.revokeUserCredentials userId none) :=
    (confined_revokeUserCredentials userId none).mono fun _ => List.mem_cons_of_mem _
  split_ifs
  · exact confined_bind hpassword fun _ => confined_bind hrevoke fun _ => confined_pure _
  · exact confined_bind hpassword fun _ => confined_pure _
  · exact confined_bind hrevoke fun _ => confined_pure _
  · exact confined_pure _

theorem confined_insertDefaultLanes (h : TableName.lanes ∈ names) (boardId : Uuid) :
    Confined names (ensureEach defaultLanes.zipIdx (BoardService.insertDefaultLane boardId)) :=
  confined_forEach (fun _ => confined_bind confined_newId fun _ => confined_insertRow h) _

theorem confined_createBoard (actor : Actor) (raw : BoardInput) :
    Confined [.boards, .boardDefaults, .lanes, .boardPolicies] (BoardService.create actor raw) := by
  unfold BoardService.create
  refine confined_ofExcept fun _ => ?_
  refine confined_reads (readsOnly_lockAdministration _) fun _ => ?_
  refine confined_reads (readsOnly_validateAccess _ _ _) fun _ => ?_
  refine confined_bind confined_newId fun _ => confined_bind confined_clockNow fun _ => ?_
  refine confined_bind (confined_insertRow (List.mem_of_elem_eq_true rfl)) fun _ => ?_
  refine confined_bind (confined_saveDefaults (by simp) _ _) fun _ => ?_
  refine confined_bind (confined_insertDefaultLanes (by simp) _) fun _ => ?_
  refine confined_bind confined_newId fun _ => confined_reads readsOnly_globalPolicy fun _ => ?_
  exact confined_bind (confined_insertRow (List.mem_of_elem_eq_true rfl)) fun _ => confined_pure _

variable [Platform]

theorem confined_saveGroup (actor : Actor) (groupId : Option Uuid) (raw : GroupInput) :
    Confined [.groups] (BoardService.saveGroup actor groupId raw) := by
  unfold BoardService.saveGroup
  refine confined_ofExcept fun _ => ?_
  refine confined_reads (readsOnly_lockAdministration _) fun _ => ?_
  refine confined_reads (readsOnly_existingGroup _) fun existing => ?_
  refine confined_reads (Program.readsOnly_read _) fun _ => ?_
  refine confined_reads (Program.readsOnly_ensure _ _) fun _ => ?_
  refine confined_reads (readsOnly_forEach readsOnly_requireUser _) fun _ => ?_
  cases existing with
  | some group =>
    exact confined_bind (confined_modifyRow fun _ => List.mem_cons_self ..) fun _ => confined_pure _
  | none =>
    refine confined_bind confined_newId fun _ => confined_bind confined_clockNow fun _ => ?_
    exact confined_bind (confined_insertRow (List.mem_cons_self ..)) fun _ => confined_pure _

theorem confined_createLane (boardId : Uuid) (actor : Actor) (raw : CreateLaneInput) :
    Confined [.lanes] (LaneAdminService.create boardId actor raw) := by
  unfold LaneAdminService.create
  refine confined_ofExcept fun _ => ?_
  refine confined_reads (readsOnly_authorize _ _) fun _ => ?_
  refine confined_reads (Program.readsOnly_read _) fun _ => ?_
  refine confined_ofExcept fun _ => ?_
  refine confined_bind confined_newId fun _ => ?_
  exact confined_bind (confined_insertRow (List.mem_cons_self ..)) fun _ => confined_pure _

theorem confined_createLocation (boardId : Uuid) (actor : Actor) (raw : CreateLocationInput) :
    Confined [.locations] (LocationAdminService.create boardId actor raw) := by
  unfold LocationAdminService.create
  refine confined_ofExcept fun _ => ?_
  refine confined_bind confined_newId fun _ => ?_
  refine confined_reads (readsOnly_ensureGranted _ _ _) fun _ => ?_
  refine confined_reads (readsOnly_ensureParent _ _) fun _ => ?_
  refine confined_reads (readsOnly_ensureUniqueSiblingName _ _ _) fun _ => ?_
  exact confined_bind (confined_insertRow (List.mem_cons_self ..)) fun _ => confined_pure _

theorem confined_updateLocation (boardId : Uuid) (actor : Actor) (locationId : Uuid)
    (raw : UpdateLocationInput) :
    Confined [.locations] (LocationAdminService.update boardId actor locationId raw) := by
  unfold LocationAdminService.update
  refine confined_ofExcept fun _ => ?_
  refine confined_reads (readsOnly_ensureGranted _ _ _) fun _ => ?_
  refine confined_reads (Program.readsOnly_read _) fun _ => ?_
  refine confined_reads (readsOnly_requireFound _ _) fun _ => ?_
  refine confined_reads (readsOnly_ensureUniqueSiblingName _ _ _) fun _ => ?_
  exact confined_bind (confined_modifyRow fun _ => List.mem_cons_self ..) fun _ => confined_pure _

theorem confined_createUser (deps : UserAdminServiceDeps) (actor : Actor) (raw : CreateUserInput)
    (temp : TempPassword) : Confined [.users] (UserAdminService.create deps actor raw temp) := by
  unfold UserAdminService.create
  refine confined_ofExcept fun _ => ?_
  refine confined_bind confined_newId fun _ => confined_bind confined_clockNow fun _ => ?_
  refine confined_reads (readsOnly_activePolicy _) fun _ => ?_
  refine confined_ofExcept fun _ => ?_
  refine confined_reads (Program.readsOnly_ensure _ _) fun _ => ?_
  exact confined_bind (confined_insertRow (List.mem_cons_self ..)) fun _ => confined_pure _

/-- A new policy version and the defaults of the roles it drops. -/
theorem confined_applyPolicy (boardId : Uuid) (actor : Actor) (document : PolicyDocument) :
    Confined [.boardPolicies, .boardDefaults] (PolicyService.apply boardId actor document) := by
  unfold PolicyService.apply
  refine confined_ofExcept fun _ => ?_
  refine confined_reads (Program.readsOnly_read _) fun _ => ?_
  refine confined_reads (readsOnly_requireFound _ _) fun authority => ?_
  refine confined_reads (Program.readsOnly_read _) fun _ => ?_
  refine confined_reads (readsOnly_requireFound _ _) fun global => ?_
  refine confined_reads (readsOnly_requireBoardAccess _ _) fun _ => ?_
  refine confined_reads (Program.readsOnly_read _) fun _ => ?_
  refine confined_reads (readsOnly_requireFound _ _) fun current => ?_
  refine confined_reads (readsOnly_decidePolicy _) fun _ => ?_
  refine confined_reads (readsOnly_ensureNoOrphanedRole _) fun _ => ?_
  refine confined_bind (confined_forEach (fun _ => confined_setDefault (by simp) _ _) _) fun _ => ?_
  refine confined_bind confined_newId fun _ => confined_bind confined_clockNow fun _ => ?_
  refine confined_bind (confined_insertRow (List.mem_cons_self ..)) fun _ => ?_
  split_ifs
  · refine confined_bind confined_newId fun _ => ?_
    exact confined_bind (confined_insertRow (List.mem_cons_self ..)) fun _ => confined_pure _
  · exact confined_pure _

end confined

section lanesKept

theorem laneRows_reads {α β : Type} {p : Tx α} {f : α → Tx β} (hp : p.ReadsOnly)
    (hf : ∀ a, Preserves LaneRows (f a)) : Preserves LaneRows (p >>= f) :=
  (Preserves.of_readsOnly hp).bind hf

theorem laneRows_ofExcept {α β : Type} {value : Except DomainError α} {f : α → Tx β}
    (hf : ∀ a, Preserves LaneRows (f a)) : Preserves LaneRows (.ofExcept value >>= f) :=
  laneRows_reads (Program.readsOnly_ofExcept _) hf

theorem laneRows_pure {α : Type} (a : α) : Preserves LaneRows (pure a : Tx α) :=
  .of_readsOnly (Program.readsOnly_pure _)

theorem laneRows_newId : Preserves LaneRows newId := by
  have hconfined : Confined [] newId := confined_newId
  exact laneRows_of_confined hconfined (by simp)

theorem laneRows_updateLane (boardId : Uuid) (actor : Actor) (laneId : Uuid)
    (raw : UpdateLaneInput) :
    Preserves LaneRows (LaneAdminService.update boardId actor laneId raw) := by
  unfold LaneAdminService.update
  refine laneRows_ofExcept fun _ => ?_
  refine laneRows_reads (readsOnly_authorize _ _) fun _ => ?_
  refine laneRows_reads (Program.readsOnly_read _) fun _ => ?_
  refine laneRows_reads (Program.readsOnly_require _ _) fun _ => ?_
  exact (laneRows_update _).bind fun _ => laneRows_pure _

theorem laneRows_reorderLanes (boardId : Uuid) (actor : Actor) (raw : ReorderLanesInput) :
    Preserves LaneRows (LaneAdminService.reorder boardId actor raw) := by
  unfold LaneAdminService.reorder
  refine laneRows_ofExcept fun _ => ?_
  refine laneRows_reads (readsOnly_authorize _ _) fun _ => ?_
  refine laneRows_reads (Program.readsOnly_read _) fun _ => ?_
  refine laneRows_reads (Program.readsOnly_ensure _ _) fun _ => ?_
  exact (laneRows_reorder _ _).bind fun _ => .of_readsOnly (Program.readsOnly_read _)

/-- A lane goes only when no card points at it. -/
theorem lanesKept_removeLane {boardId : Uuid} {actor : Actor} {laneId : Uuid}
    {w w' : World Store Tick} {u : Unit}
    (h : Runs (LaneAdminService.remove boardId actor laneId) w u w') :
    LanesKept w.store w'.store := by
  unfold LaneAdminService.remove at h
  replace h := runs_bind_iff.mp h
  obtain ⟨_, _, hauthorize, h⟩ := h
  obtain rfl := hauthorize.of_readsOnly (readsOnly_authorize _ _)
  simp only [LaneRepository.listByBoard, runs_bind_iff, runs_read_iff, runs_require_iff,
    runs_ensure_iff, LaneRepository.remove, runs_write_iff] at h
  obtain ⟨lanes, _, ⟨rfl, rfl⟩, lane, _, ⟨hlane, rfl⟩, _, _, ⟨-, rfl⟩, edge, _, hedge, _, w₀, ⟨-, rfl⟩, ws,
    hws, rfl⟩ := h
  obtain rfl := hedge.of_readsOnly (readsOnly_edgeOfLane _ _)
  cases hfound : w₀.store.lanes.find? lane.id with
  | none =>
    simp only [hfound] at hws
    cases hws
  | some found =>
    simp only [hfound] at hws
    split_ifs at hws with hcards
    cases hws
    rintro card hcard row ⟨hmem, hid, hboard⟩
    have hne : row.id ≠ found.id := by
      intro heq
      refine hcards (List.any_eq_true.mpr ⟨card, hcard, ?_⟩)
      have hkey : found.id = lane.id := Table.find?_key hfound
      simp [← hid, heq, hkey]
    have hkept : row ∈ (w₀.store.lanes.write (.delete found)).rows :=
      Table.mem_remove.mpr ⟨hmem, decide_eq_false hne⟩
    exact ⟨row, ⟨hkept, hid, hboard⟩, rfl⟩

theorem laneRows_createBoard (actor : Actor) (raw : BoardInput) :
    Preserves LaneRows (BoardService.create actor raw) := by
  have hother : ∀ {α : Type} {p : Tx α}, Confined [.boards, .boardDefaults, .boardPolicies] p →
      Preserves LaneRows p := fun hp => laneRows_of_confined hp (by decide)
  unfold BoardService.create
  refine laneRows_ofExcept fun _ => ?_
  refine laneRows_reads (readsOnly_lockAdministration _) fun _ => ?_
  refine laneRows_reads (readsOnly_validateAccess _ _ _) fun _ => ?_
  refine laneRows_newId.bind fun _ => (hother confined_clockNow).bind fun _ => ?_
  refine (hother (confined_insertRow (List.mem_of_elem_eq_true rfl))).bind fun _ => ?_
  refine (hother (confined_saveDefaults (by simp) _ _)).bind fun _ => ?_
  refine (preserves_forEach (fun _ => laneRows_newId.bind fun _ => laneRows_insert _) _).bind
    fun _ => ?_
  refine laneRows_newId.bind fun _ => laneRows_reads readsOnly_globalPolicy fun _ => ?_
  exact (hother (confined_insertRow (List.mem_of_elem_eq_true rfl))).bind fun _ => laneRows_pure _

variable [Platform]

theorem laneRows_createLane (boardId : Uuid) (actor : Actor) (raw : CreateLaneInput) :
    Preserves LaneRows (LaneAdminService.create boardId actor raw) := by
  unfold LaneAdminService.create
  refine laneRows_ofExcept fun _ => ?_
  refine laneRows_reads (readsOnly_authorize _ _) fun _ => ?_
  refine laneRows_reads (Program.readsOnly_read _) fun _ => ?_
  refine laneRows_ofExcept fun _ => ?_
  exact laneRows_newId.bind fun _ => (laneRows_insert _).bind fun _ => laneRows_pure _

end lanesKept

section locations

/-- A unit of work deleted locations, and took them off the cards that named them. -/
structure Unlocated (w w' : World Store Tick) (subtree : List Uuid) : Prop where
  cards : w'.store.cards.rows = w.store.cards.rows.map fun c =>
    if c.locationId.any (subtree.contains ·) then { c with locationId := none } else c
  frame : ∀ name, name ≠ .cards → name ≠ .locations → w.store.SameTable name w'.store
  inputs : w'.inputs = w.inputs
  drawn : w.drawn ≤ w'.drawn

/-- What an accepted deletion of a location does. -/
theorem runs_deleteLocation {w w' : World Store Tick} {id : Uuid} {u : Unit}
    (h : Runs (LocationRepository.delete id) w u w') :
    (∃ location, w.store.locations.find? id = some location) ∧
      Unlocated w w' (LocationRepository.collectSubtree w.store.locations.rows id) := by
  simp only [LocationRepository.delete, LocationRepository.findById, runs_bind_iff,
    runs_selectKey_iff, runs_require_iff, runs_read_iff, runs_modifyWhere_iff, table_cards,
    put_cards] at h
  obtain ⟨_, _, ⟨rfl, rfl⟩, found, _, ⟨hfound, rfl⟩, _, w₀, ⟨rfl, rfl⟩, _, _, rfl, hdelete⟩ := h
  have hconfined : Confined [.locations] (Program.forEach
      (fun subtreeId => deleteWhere fun r : Location => r.id == subtreeId)
      (LocationRepository.collectSubtree w₀.store.locations.rows id) : Tx Unit) :=
    confined_forEach (fun _ => confined_deleteWhere fun _ => List.mem_cons_self ..) _
  refine ⟨⟨found, hfound⟩, ?_, fun name hcards hlocations => ?_, hdelete.inputs, hdelete.drawn_le⟩
  · have hsame : w'.store.cards = _ := sameTable_of_confined (p := _) hdelete hconfined
      (show TableName.cards ∉ _ by decide)
    rw [hsame]
    exact Table.rows_foldl_updateWhere (f := fun c : Card => { c with locationId := none })
      (fun _ => rfl) (fun _ _ => rfl) _ _
  · have hsame := sameTable_of_confined hdelete hconfined (by simpa using hlocations)
    refine Store.SameTable.trans ?_ hsame
    cases name <;> first | rfl | exact absurd rfl hcards

/-- Nothing but a missing location stops a deletion. -/
theorem runs_deleteLocation_of_found {w : World Store Tick} {id : Uuid}
    (hfound : ∃ location, w.store.locations.find? id = some location) :
    ∃ w', Runs (LocationRepository.delete id) w () w' := by
  have heach : ∀ (ids : List Uuid) (w₁ : World Store Tick), ∃ w',
      Runs (Program.forEach (fun subtreeId => deleteWhere fun r : Location => r.id == subtreeId) ids :
        Tx Unit) w₁ () w' := by
    intro ids
    induction ids with
    | nil => exact fun w₁ => ⟨w₁, runs_progPure_iff.mpr ⟨rfl, rfl⟩⟩
    | cons id ids ih =>
      intro w₁
      obtain ⟨w', hrest⟩ := ih (w₁.withStore
        (HasTable.put w₁.store ((HasTable.table w₁.store).remove fun r : Location => r.id == id)))
      exact ⟨w', runs_progBind_iff.mpr ⟨(), _, runs_deleteWhere_iff.mpr rfl, hrest⟩⟩
  obtain ⟨location, hfound⟩ := hfound
  simp only [LocationRepository.delete, LocationRepository.findById, runs_bind_iff,
    runs_selectKey_iff, runs_require_iff, runs_read_iff, runs_modifyWhere_iff]
  obtain ⟨w', hrest⟩ := heach _ _
  exact ⟨w', _, w, ⟨rfl, rfl⟩, location, w, ⟨hfound, rfl⟩, _, w, ⟨rfl, rfl⟩, (), _, rfl, hrest⟩

/-- A card in the deleted subtree keeps everything but its location. -/
theorem find?_unlocated {w w' : World Store Tick} {subtree : List Uuid} {card : Card} {id : Uuid}
    (h : Unlocated w w' subtree) (hcard : card ∈ w.store.cards.rows) (hid : card.locationId = some id)
    (hmem : id ∈ subtree) :
    w'.store.cards.find? card.id = some { card with locationId := none } := by
  refine Table.find?_eq_some_iff.mpr ⟨?_, rfl⟩
  rw [h.cards]
  refine List.mem_map.mpr ⟨card, hcard, if_pos ?_⟩
  simp [hid, hmem]

end locations
end AiKanban.Effects
