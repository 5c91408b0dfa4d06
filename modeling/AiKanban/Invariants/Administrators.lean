import AiKanban.Effects.Roles

/-!
# Administrators and policy editors

What keeps some active account with the permission to manage users, or to apply policies, over
runs of the policy and the user service.
-/
namespace AiKanban.Invariants

open Domain Db Policy Relational Services Server Transactions
open Application Effects Transitions

section held

-- `grants` says what a role key grants under a list of role definitions.
variable (grants : List RoleDefinition → Role → Bool) (systemUserId : Uuid)

/-- An active account of a person has a role that grants it. -/
def HeldUnder (roles : List RoleDefinition) (s : Store) : Prop :=
  ∃ u ∈ standings s, u.isActive = true ∧ u.id ≠ systemUserId ∧ grants roles u.role = true

def Held (s : Store) : Prop := HeldUnder grants systemUserId (globalRoles s) s

/-- Some holder other than the updated user is there, or the update takes nothing from it. -/
def Spares (userId : Uuid) (input : UpdateUserInput) (s : Store) : Prop :=
  ∃ u ∈ standings s, u.isActive = true ∧ u.id ≠ systemUserId ∧
    grants (globalRoles s) u.role = true ∧
    (u.id = userId → input.isActive ≠ some false ∧
      ∀ role, input.role = some role → grants (globalRoles s) role = true)

/-- A step of the policy or the user service that leaves a holder. -/
def Leaves (s : Store) : RoleOperation → Prop
  | .applyPolicy _ _ document => HeldUnder grants systemUserId document.roles s
  | .createUser .. => True
  | .updateUser _ _ userId input _ => Spares grants systemUserId userId input s
  | _ => False

variable {grants systemUserId} {s s' : Store} {w : World Store Tick}

theorem globalRoles_congr (hboards : s'.boards = s.boards)
    (hpolicies : s'.boardPolicies = s.boardPolicies) : globalRoles s' = globalRoles s := by
  simp [globalRoles, globalPolicyOf, hboards, newest_congr hpolicies]

theorem HeldUnder.mono {roles : List RoleDefinition} (h : HeldUnder grants systemUserId roles s)
    (hsub : ∀ u ∈ standings s, u ∈ standings s') : HeldUnder grants systemUserId roles s' := by
  obtain ⟨u, hu, hholds⟩ := h
  exact ⟨u, hsub u hu, hholds⟩

theorem held_apply {document : PolicyDocument} (hs : AppliedRoles document s s')
    (h : Held grants systemUserId s) (hdocument : HeldUnder grants systemUserId document.roles s) :
    Held grants systemUserId s' := by
  have hsame : ∀ u ∈ standings s, u ∈ standings s' := by
    intro u hu
    rwa [standings_of_users hs.users]
  rcases hs.roles with hroles | hroles <;> unfold Held <;> rw [hroles]
  · exact HeldUnder.mono h hsame
  · exact hdocument.mono hsame

theorem held_createUser {input : CreateUserInput} (hs : CreatedUser input s s')
    (h : Held grants systemUserId s) : Held grants systemUserId s' := by
  have hroles : globalRoles s' = globalRoles s :=
    globalRoles_congr (hs.frame .boards (by decide)) (hs.frame .boardPolicies (by decide))
  obtain ⟨id, hstandings⟩ := hs.standings
  unfold Held
  rw [hroles]
  refine HeldUnder.mono h fun u hu => ?_
  rw [hstandings]
  exact List.mem_append_left _ hu

theorem held_updateUser {deps : UserAdminServiceDeps} {userId : Uuid} {input : UpdateUserInput}
    (hs : UpdatedUser deps userId input s s') (h : Spares grants systemUserId userId input s) :
    Held grants systemUserId s' := by
  have hroles : globalRoles s' = globalRoles s :=
    globalRoles_congr (hs.frame .boards (by decide)) (hs.frame .boardPolicies (by decide))
  obtain ⟨u, hu, hactive, hid, hgrants, hspared⟩ := h
  have hu' : amend userId input u ∈ standings s' := by
    rw [hs.standings]
    exact List.mem_map_of_mem hu
  refine ⟨_, hu', ?_⟩
  rw [hroles]
  unfold amend
  split_ifs with hsame
  · obtain ⟨hkeeps, hrole⟩ := hspared hsame
    refine ⟨?_, hid, ?_⟩
    · cases hinput : input.isActive with
      | none => simpa using hactive
      | some active => cases active <;> simp_all
    · cases hinput : input.role with
      | none => simpa using hgrants
      | some role => simpa using hrole role hinput
  · exact ⟨hactive, hid, hgrants⟩

/-- A rejected operation changes nothing; an accepted one ran its body. -/
theorem roleStep_cases [Platform] (w : World Store Tick) (op : RoleOperation) :
    (roleStep w op).store = w.store ∨ ∃ u, Runs op.body w u (roleStep w op) := by
  unfold roleStep
  rcases ht : transact op.body w with ⟨e | u, w'⟩
  · exact .inl (transact_error ht)
  · exact .inr ⟨u, transact_ok_iff.mp ht⟩

theorem held_step [Platform] {op : RoleOperation} (h : Held grants systemUserId w.store)
    (haccepted : (∃ u, Runs op.body w u (roleStep w op)) →
      Leaves grants systemUserId w.store op) :
    Held grants systemUserId (roleStep w op).store := by
  rcases roleStep_cases w op with hsame | ⟨u, hruns⟩
  · rwa [hsame]
  · have hleaves := haccepted ⟨u, hruns⟩
    cases op with
    | applyPolicy boardId actor document =>
      obtain ⟨_, happly, -⟩ := runs_map_iff.mp hruns
      exact held_apply (runs_apply happly) h hleaves
    | createUser deps actor raw temp =>
      obtain ⟨_, hcreate, -⟩ := runs_map_iff.mp hruns
      exact held_createUser (runs_createUser hcreate) h
    | updateUser deps actor userId raw temp =>
      obtain ⟨_, hupdate, -⟩ := runs_map_iff.mp hruns
      exact held_updateUser (runs_updateUser hupdate) hleaves
    | _ => exact hleaves.elim

end held

section administrators

variable {systemUserId : Uuid} {w : World Store Tick}

/-- Some active account of a person has a role that grants `manageUsers`. -/
def HasAdministrator (systemUserId : Uuid) (s : Store) : Prop :=
  ∃ policy ∈ globalPolicyOf s, ∃ row ∈ s.users.rows, row.user.isActive = true ∧
    row.user.id ≠ systemUserId ∧
    row.user.role ∈ UserAdminService.manageUsersRoleKeys policy.config

instance (systemUserId : Uuid) (s : Store) : Decidable (HasAdministrator systemUserId s) := by
  unfold HasAdministrator
  infer_instance

/-- A step of the policy or the user service, built with the given automation user. -/
def OfAccounts (systemUserId : Uuid) : RoleOperation → Prop
  | .applyPolicy .. => True
  | .createUser deps .. => deps.systemUserId = systemUserId
  | .updateUser deps .. => deps.systemUserId = systemUserId
  | _ => False

instance (systemUserId : Uuid) : ∀ op, Decidable (OfAccounts systemUserId op)
  | .applyPolicy .. => inferInstanceAs (Decidable True)
  | .createUser deps .. => inferInstanceAs (Decidable (deps.systemUserId = systemUserId))
  | .updateUser deps .. => inferInstanceAs (Decidable (deps.systemUserId = systemUserId))
  | .createToken .. | .rotateToken .. | .revokeToken .. | .createBoard .. | .updateBoard ..
  | .removeBoard .. => inferInstanceAs (Decidable False)

/-- An applied document grants `manageUsers` to the role of some active account of a person. -/
def KeepsAdministrator (systemUserId : Uuid) (w : World Store Tick) : RoleOperation → Prop
  | .applyPolicy _ _ document => ∃ row ∈ w.store.users.rows, row.user.isActive = true ∧
      row.user.id ≠ systemUserId ∧ row.user.role ∈ UserAdminService.manageUsersRoleKeys document
  | op => OfAccounts systemUserId op

/-- The roles decide which keys manage users. -/
def managesUsers (roles : List RoleDefinition) (role : Role) : Bool :=
  ((roles.filter fun r => r.permissions.contains .manageUsers).map (·.key)).contains role

theorem managesUsers_iff {policy : PolicyDocument} {role : Role} :
    managesUsers policy.roles role = true ↔
      role ∈ UserAdminService.manageUsersRoleKeys policy := by
  simp [managesUsers, UserAdminService.manageUsersRoleKeys]

theorem heldUnder_managesUsers {document : PolicyDocument} {s : Store} :
    HeldUnder managesUsers systemUserId document.roles s ↔ ∃ row ∈ s.users.rows,
      row.user.isActive = true ∧ row.user.id ≠ systemUserId ∧
        row.user.role ∈ UserAdminService.manageUsersRoleKeys document := by
  simp [HeldUnder, standings, standing, managesUsers_iff]

theorem hasAdministrator_iff {s : Store} :
    HasAdministrator systemUserId s ↔ Held managesUsers systemUserId s := by
  unfold HasAdministrator Held globalRoles
  cases hpolicy : globalPolicyOf s with
  | none => simp [HeldUnder, managesUsers]
  | some policy => simp [← heldUnder_managesUsers]

/-- The guard of an update: another administrator is there, or none is taken away. -/
theorem spares_updateUser {deps : UserAdminServiceDeps} {userId : Uuid} {input : UpdateUserInput}
    {s s' : Store} (hs : UpdatedUser deps userId input s s')
    (h : Held managesUsers deps.systemUserId s) :
    Spares managesUsers deps.systemUserId userId input s := by
  obtain ⟨u, hu, hactive, hid, hmanages⟩ := h
  have hguard := hs.guard { defaultPolicyDocument with roles := globalRoles s } rfl u hu
  simp only [← managesUsers_iff] at hguard
  by_cases hsame : u.id = userId
  · by_cases hloses : (∃ role, input.role = some role ∧
        ¬ managesUsers (globalRoles s) role = true) ∨ input.isActive = some false
    · obtain ⟨v, hv, hlive, hother, hperson, hrole⟩ := hguard hsame hactive hmanages hloses
      exact ⟨v, hv, hlive, hperson, hrole, fun hvid => absurd hvid hother⟩
    · push Not at hloses
      exact ⟨u, hu, hactive, hid, hmanages, fun _ => ⟨hloses.2, fun role hrole => hloses.1 role hrole⟩⟩
  · exact ⟨u, hu, hactive, hid, hmanages, fun huid => absurd huid hsame⟩

variable [Platform]

theorem hasAdministrator_step {op : RoleOperation} (h : HasAdministrator systemUserId w.store)
    (hkeeps : KeepsAdministrator systemUserId w op) :
    HasAdministrator systemUserId (roleStep w op).store := by
  rw [hasAdministrator_iff] at h ⊢
  refine held_step h fun haccepted => ?_
  obtain ⟨_, hruns⟩ := haccepted
  cases op with
  | applyPolicy boardId actor document => exact heldUnder_managesUsers.mpr hkeeps
  | createUser => trivial
  | updateUser deps actor userId raw temp =>
    obtain ⟨_, hupdate, -⟩ := runs_map_iff.mp hruns
    obtain rfl : deps.systemUserId = systemUserId := hkeeps
    exact spares_updateUser (runs_updateUser hupdate) h
  | _ => exact hkeeps.elim

/-- An administrator stays over every run in which each applied document leaves one. -/
theorem administrator_stays {ops : List RoleOperation}
    (hstart : HasAdministrator systemUserId w.store)
    (hkeeps : Admitted roleStep (KeepsAdministrator systemUserId) w ops) :
    HasAdministrator systemUserId (runAll roleStep w ops).store :=
  runAll_induction (I := fun w => HasAdministrator systemUserId w.store)
    (fun _ _ h hop => hasAdministrator_step h hop) hstart hkeeps

end administrators

section editors

variable {systemUserId : Uuid} {w : World Store Tick}

/-- A person signed in with the account's role. -/
def userActor (userId : Uuid) (role : Role) : Actor := { kind := .user, id := userId, role }

/-- Under the document, some active account of a person may apply a policy. -/
def EditableUnder (systemUserId : Uuid) (document : PolicyDocument) (s : Store) : Prop :=
  ∃ row ∈ s.users.rows, row.user.isActive = true ∧ row.user.id ≠ systemUserId ∧
    evaluatePolicy (userActor row.user.id row.user.role) .managePolicy document = .allow

def HasEditor (systemUserId : Uuid) (s : Store) : Prop :=
  ∃ policy ∈ globalPolicyOf s, EditableUnder systemUserId policy.config s

instance (systemUserId : Uuid) (document : PolicyDocument) (s : Store) :
    Decidable (EditableUnder systemUserId document s) := by
  unfold EditableUnder
  infer_instance

instance (systemUserId : Uuid) (s : Store) : Decidable (HasEditor systemUserId s) := by
  unfold HasEditor
  infer_instance

/-- Some editor other than the updated user is there, or the update leaves this one an editor. -/
def SparesEditor (systemUserId userId : Uuid) (input : UpdateUserInput) (s : Store) : Prop :=
  ∃ policy ∈ globalPolicyOf s, ∃ row ∈ s.users.rows, row.user.isActive = true ∧
    row.user.id ≠ systemUserId ∧
    evaluatePolicy (userActor row.user.id row.user.role) .managePolicy policy.config = .allow ∧
    (row.user.id = userId → input.isActive ≠ some false ∧ ∀ role, input.role = some role →
      evaluatePolicy (userActor userId role) .managePolicy policy.config = .allow)

/-- An applied document has an editor, and an updated account is not the last one to lose it. -/
def KeepsEditor (systemUserId : Uuid) (w : World Store Tick) : RoleOperation → Prop
  | .applyPolicy _ _ document => EditableUnder systemUserId document w.store
  | .updateUser _ _ userId input _ => SparesEditor systemUserId userId input w.store
  | op => OfAccounts systemUserId op

/-- The roles decide which keys apply policies. -/
def editsPolicy (roles : List RoleDefinition) (role : Role) : Bool :=
  (roles.find? fun candidate => candidate.key == role).any fun found =>
    found.permissions.contains .managePolicy

theorem editsPolicy_iff {document : PolicyDocument} {userId : Uuid} {role : Role} :
    editsPolicy document.roles role = true ↔
      evaluatePolicy (userActor userId role) .managePolicy document = .allow := by
  simp only [evaluatePolicy, userActor, grant, editsPolicy]
  cases document.roles.find? fun candidate => candidate.key == role with
  | none => simp
  | some found => by_cases h : Permission.managePolicy ∈ found.permissions <;> simp [h]

theorem heldUnder_editsPolicy {document : PolicyDocument} {s : Store} :
    HeldUnder editsPolicy systemUserId document.roles s ↔
      EditableUnder systemUserId document s := by
  simp [HeldUnder, EditableUnder, standings, standing, ← editsPolicy_iff]

theorem hasEditor_iff {s : Store} :
    HasEditor systemUserId s ↔ Held editsPolicy systemUserId s := by
  unfold HasEditor Held globalRoles
  cases hpolicy : globalPolicyOf s with
  | none => simp [HeldUnder, editsPolicy]
  | some policy => simp [← heldUnder_editsPolicy]

theorem SparesEditor.spares {userId : Uuid} {input : UpdateUserInput} {s : Store}
    (h : SparesEditor systemUserId userId input s) :
    Spares editsPolicy systemUserId userId input s := by
  obtain ⟨policy, hpolicy, row, hrow, hactive, hid, hallow, hspared⟩ := h
  have hroles : globalRoles s = policy.config.roles := by
    simp [globalRoles, Option.mem_def.mp hpolicy]
  refine ⟨standing row, List.mem_map_of_mem hrow, hactive, hid, ?_, fun hsame => ?_⟩
  · rw [hroles]
    exact editsPolicy_iff.mpr hallow
  · obtain ⟨hkeeps, hrole⟩ := hspared hsame
    refine ⟨hkeeps, fun role hinput => ?_⟩
    rw [hroles]
    exact editsPolicy_iff.mpr (hrole role hinput)

variable [Platform]

theorem hasEditor_step {op : RoleOperation} (h : HasEditor systemUserId w.store)
    (hkeeps : KeepsEditor systemUserId w op) : HasEditor systemUserId (roleStep w op).store := by
  rw [hasEditor_iff] at h ⊢
  refine held_step h fun _ => ?_
  cases op with
  | applyPolicy boardId actor document => exact heldUnder_editsPolicy.mpr hkeeps
  | createUser => trivial
  | updateUser deps actor userId raw temp => exact SparesEditor.spares hkeeps
  | _ => exact hkeeps.elim

/-- An editor stays over every run in which each step leaves one. -/
theorem editor_stays {ops : List RoleOperation} (hstart : HasEditor systemUserId w.store)
    (hkeeps : Admitted roleStep (KeepsEditor systemUserId) w ops) :
    HasEditor systemUserId (runAll roleStep w ops).store :=
  runAll_induction (I := fun w => HasEditor systemUserId w.store)
    (fun _ _ h hop => hasEditor_step h hop) hstart hkeeps

end editors

section sample

/-- A freshly seeded board with one person, an administrator. -/
def staffed : World Store Tick :=
  @roleStep samplePlatform (freshlySeeded sampleTicks)
    (.createUser ⟨101, 102⟩ sampleActor ⟨"ada@example.com", "Ada", "admin"⟩ ⟨"once", "hash"⟩)

/-- The default document with other permissions for the administrators. -/
def administratorsMay (permissions : List Permission) : PolicyDocument :=
  { defaultPolicyDocument with roles := [userRole, { adminRole with permissions }] }

/-- A document whose administrators keep the roles and the policy leaves nobody who can
manage users. -/
theorem administrator_lost : ¬ ∀ (_ : Platform) (systemUserId : Uuid) (w : World Store Tick)
    (ops : List RoleOperation), HasAdministrator systemUserId w.store →
    (∀ op ∈ ops, OfAccounts systemUserId op) →
    HasAdministrator systemUserId (runAll roleStep w ops).store := by
  intro h
  have hlost : ¬ HasAdministrator 102 (@runAll _ _ (@roleStep samplePlatform) staffed
      [.applyPolicy 101 sampleActor (administratorsMay [.manageRoles, .managePolicy])]).store := by
    decide +kernel
  exact hlost (h samplePlatform 102 staffed _ (by decide +kernel) (by decide))

theorem administrator_stays_staffed : HasAdministrator 102 staffed.store ∧
    HasAdministrator 102 (@runAll _ _ (@roleStep samplePlatform) staffed
      [.applyPolicy 101 sampleActor (administratorsMay [.manageRoles, .managePolicy, .manageUsers]),
        .updateUser ⟨101, 102⟩ sampleActor 111 { role := some "user" } ⟨"once", "hash"⟩]).store := by
  have hstart : HasAdministrator 102 staffed.store := by decide +kernel
  refine ⟨hstart, @administrator_stays _ _ samplePlatform _ hstart ⟨?_, rfl, trivial⟩⟩
  show ∃ row ∈ staffed.store.users.rows, row.user.isActive = true ∧ row.user.id ≠ 102 ∧
    row.user.role ∈ UserAdminService.manageUsersRoleKeys
      (administratorsMay [.manageRoles, .managePolicy, .manageUsers])
  decide +kernel

/-- A document whose administrators keep the roles and the accounts, but not the policy, is
accepted, and no policy is applied after it. -/
theorem editor_lost : ¬ ∀ (_ : Platform) (systemUserId : Uuid) (w : World Store Tick)
    (ops : List RoleOperation), (∃ policy ∈ globalPolicyOf w.store,
      policy.config = defaultPolicyDocument) → HasEditor systemUserId w.store →
    (∀ op ∈ ops, OfAccounts systemUserId op) →
    HasEditor systemUserId (runAll roleStep w ops).store := by
  intro h
  have hlost : ¬ HasEditor 102 (@runAll _ _ (@roleStep samplePlatform) staffed
      [.applyPolicy 101 sampleActor (administratorsMay [.manageRoles, .manageUsers])]).store := by
    decide +kernel
  exact hlost (h samplePlatform 102 staffed _ (by decide +kernel) (by decide +kernel) (by decide))

theorem editor_stays_staffed : HasEditor 102 staffed.store ∧
    HasEditor 102 (@runAll _ _ (@roleStep samplePlatform) staffed
      [.applyPolicy 101 sampleActor (administratorsMay [.manageRoles, .managePolicy])]).store := by
  have hstart : HasEditor 102 staffed.store := by decide +kernel
  have hdocument : EditableUnder 102 (administratorsMay [.manageRoles, .managePolicy])
      staffed.store := by decide +kernel
  exact ⟨hstart, @editor_stays _ _ samplePlatform _ hstart ⟨hdocument, trivial⟩⟩

end sample
end AiKanban.Invariants
