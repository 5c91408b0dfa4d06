import AiKanban.Server.LocalBlobStore
import AiKanban.Db.Seed
import AiKanban.Transactions.Rejection

/-!
# Read-scope actors

A service token or an agent with scope `read` passes no guard of a mutation: each one
consults the policy engine or the permission guard before its first write.
-/
namespace AiKanban.Invariants

open Application Db Domain Policy Server Services Transactions Program

/-- A service token or an OAuth agent that carries scope `read`. -/
structure ReadScoped (actor : Actor) : Prop where
  delegated : actor.kind = .mcp ∨ actor.kind = .agent
  scope : actor.scope = some .read

/-- Who calls the operation; the alert job calls without an actor. -/
def caller : Operation → Option Actor
  | .card (.create _ actor _ _) => some actor
  | .card (.update _ actor _ _) => some actor
  | .card (.move actor _ _) => some actor
  | .card (.cancel actor _ _) => some actor
  | .card (.reopen actor _ _) => some actor
  | .card (.archive actor _ _) => some actor
  | .card (.block actor _ _) => some actor
  | .card (.unblock actor _ _) => some actor
  | .card (.delete actor _ _) => some actor
  | .card (.archiveExpired actor) => some actor
  | .card (.claimOverdueWaitingAlerts _) => none
  | .collaboration (.addComment actor _ _ _) => some actor
  | .collaboration (.editComment actor _ _) => some actor
  | .collaboration (.softDeleteComment actor _) => some actor
  | .collaboration (.listComments actor _) => some actor
  | .collaboration (.addAttachment actor _ _) => some actor
  | .collaboration (.getAttachment actor _) => some actor
  | .collaboration (.removeAttachment actor _) => some actor
  | .collaboration (.createRelation actor _ _) => some actor
  | .collaboration (.deleteRelation actor _ _) => some actor
  | .collaboration (.listRelations actor _) => some actor
  | .administration (.getPolicy _) => none
  | .administration (.applyPolicy _ actor _) => some actor
  | .administration (.createBoard actor _) => some actor
  | .administration (.updateBoard actor _ _) => some actor
  | .administration (.removeBoard actor _) => some actor
  | .administration (.setPreference actor _) => some actor
  | .administration (.saveGroup actor _ _) => some actor
  | .administration (.removeGroup actor _) => some actor
  | .administration (.createLane _ actor _) => some actor
  | .administration (.updateLane _ actor _ _) => some actor
  | .administration (.removeLane _ actor _) => some actor
  | .administration (.reorderLanes _ actor _) => some actor
  | .administration (.createLocation _ actor _) => some actor
  | .administration (.updateLocation _ actor _ _) => some actor
  | .administration (.deleteLocation _ actor _) => some actor
  | .administration (.createUser _ actor _ _) => some actor
  | .administration (.updateUser _ actor _ _ _) => some actor

/-- The operation may write. -/
def mutates : Operation → Bool
  | .collaboration (.listComments _ _) => false
  | .collaboration (.getAttachment _ _) => false
  | .collaboration (.listRelations _ _) => false
  | .administration (.getPolicy _) => false
  | _ => true

/-- The nightly sweep, which its job runs as the system. -/
def isSweep : Operation → Bool
  | .card (.archiveExpired _) => true
  | _ => false

section guards

variable {actor : Actor}

theorem ReadScoped.not_system (h : ReadScoped actor) : actor.kind ≠ .system := by
  rcases h.delegated with hk | hk <;> simp [hk]

theorem ReadScoped.evaluatePolicy (h : ReadScoped actor) (action : PolicyAction)
    (policy : PolicyDocument) : evaluatePolicy actor action policy = .denied readScopeRule := by
  simp [Policy.evaluatePolicy, h.not_system, h.scope]

theorem ReadScoped.ensurePermission (h : ReadScoped actor) (perm : Permission)
    (policy : PolicyDocument) :
    ensurePermission actor perm policy = .error (.policyDenied readScopeRule) := by
  simp [Policy.ensurePermission, h.not_system, h.scope]

theorem ReadScoped.barred_decide (h : ReadScoped actor) (action : PolicyAction)
    (policy : PolicyDocument) :
    (decidePolicy (Policy.evaluatePolicy actor action policy)).Barred := by
  rw [h.evaluatePolicy]
  exact .throw _

theorem ReadScoped.barred_permission (h : ReadScoped actor) (perm : Permission)
    (policy : PolicyDocument) :
    (.ofExcept (Policy.ensurePermission actor perm policy) : Tx Unit).Barred := by
  rw [h.ensurePermission]
  exact barred_error

theorem ReadScoped.barred_lockAdministration (h : ReadScoped actor) :
    (BoardService.lockAdministration actor).Barred :=
  .bind fun _ => .bind fun _ => .bind fun _ => .bind fun _ => h.barred_permission _ _

theorem ReadScoped.barred_ensureGranted (h : ReadScoped actor) (perm : Permission)
    (boardId : Uuid) : (ensureGranted actor perm boardId).Barred :=
  .bind fun _ => h.barred_permission _ _

theorem ReadScoped.barred_authorize (h : ReadScoped actor) (boardId : Uuid) :
    (LaneAdminService.authorize boardId actor).Barred :=
  .bind fun _ => h.barred_ensureGranted _ _

theorem barred_discard {α : Type} {p : Tx α} (h : p.Barred) : (discard p).Barred := h.map _

end guards

section bodies

variable {actor : Actor} (h : ReadScoped actor)

include h

theorem ReadScoped.barred_archive (cardId : ℕ) (input : VersionInput) :
    (CardService.archiveBody actor cardId input).Barred :=
  .bind fun _ => .bind fun _ => .bind fun _ => .bind fun _ => .bind fun _ =>
    (h.barred_decide _ _).then _

theorem ReadScoped.barred_flag (cardId expectedVersion : ℕ) (reason : Option String) :
    (CardService.setBlockedFlagBody actor cardId expectedVersion reason).Barred :=
  .bind fun _ => .bind fun _ => .bind fun _ => (h.barred_decide _ _).then _

theorem ReadScoped.barred_delete (cardId expectedVersion : ℕ) :
    (CardService.deleteBody actor cardId expectedVersion).Barred := by
  apply Barred.then
  exact .bind fun _ => .bind fun _ => (h.barred_decide _ _).then _

theorem ReadScoped.barred_addComment (cardId : ℕ) (raw : AddCommentInput) (author : Option Uuid) :
    (CommentService.add actor cardId raw author).Barred := by
  unfold CommentService.add
  exact .bind fun _ => .bind fun _ => .bind fun _ => .bind fun _ => (h.barred_decide _ _).then _

theorem ReadScoped.barred_editComment (commentId : Uuid) (raw : EditCommentInput) :
    (CommentService.edit actor commentId raw).Barred := by
  unfold CommentService.edit
  exact .bind fun _ => .bind fun _ => .bind fun _ => .bind fun _ => .bind fun _ =>
    (h.barred_decide _ _).then _

theorem ReadScoped.barred_softDelete (commentId : Uuid) :
    (CommentService.softDelete actor commentId).Barred := by
  unfold CommentService.softDelete
  exact .bind fun _ => .bind fun _ => .bind fun _ => .bind fun _ => (h.barred_decide _ _).then _

theorem ReadScoped.barred_addAttachment (cardId : ℕ) (raw : AddAttachmentInput) :
    (AttachmentService.add actor cardId raw).Barred := by
  unfold AttachmentService.add
  exact .bind fun _ => .bind fun _ => .bind fun _ => .bind fun _ => .bind fun _ => .bind fun _ =>
    (h.barred_decide _ _).then _

theorem ReadScoped.barred_removeAttachment (attachmentId : Uuid) :
    (AttachmentService.remove actor attachmentId).Barred := by
  unfold AttachmentService.remove
  exact .bind fun _ => .bind fun _ => .bind fun _ => .bind fun _ => (h.barred_decide _ _).then _

theorem ReadScoped.barred_createRelation (cardId : ℕ) (raw : CreateCardRelationInput) :
    (CardRelationService.create actor cardId raw).Barred := by
  unfold CardRelationService.create CardRelationService.createChecks
  apply Barred.then
  exact .bind fun _ => .bind fun _ => .bind fun _ => .bind fun _ => .bind fun _ => .bind fun _ =>
    (h.barred_permission _ _).then _

theorem ReadScoped.barred_deleteRelation (cardId : ℕ) (relationId : Uuid) :
    (CardRelationService.delete actor cardId relationId).Barred := by
  unfold CardRelationService.delete CardRelationService.deleteChecks
  apply Barred.then
  exact .bind fun _ => .bind fun _ => (h.barred_permission _ _).then _

theorem ReadScoped.barred_setPreference (boardId : Option Uuid) :
    (BoardService.setPreference actor boardId).Barred := by
  have hkind : (actor.kind == .user) = false := by
    rcases h.delegated with hk | hk <;> simp [hk]
  unfold BoardService.setPreference
  rw [hkind]
  exact (barred_ensure _).then _

theorem ReadScoped.barred_collaboration {op : CollaborationOperation}
    (hcaller : caller (.collaboration op) = some actor)
    (hmutates : mutates (.collaboration op) = true) : op.body.Barred := by
  cases op with
  | addComment =>
    cases hcaller
    exact barred_discard (h.barred_addComment ..)
  | editComment =>
    cases hcaller
    exact barred_discard (h.barred_editComment ..)
  | softDeleteComment =>
    cases hcaller
    exact barred_discard (h.barred_softDelete ..)
  | addAttachment =>
    cases hcaller
    exact barred_discard (h.barred_addAttachment ..)
  | removeAttachment =>
    cases hcaller
    exact barred_discard (h.barred_removeAttachment ..)
  | createRelation =>
    cases hcaller
    exact barred_discard (h.barred_createRelation ..)
  | deleteRelation =>
    cases hcaller
    exact h.barred_deleteRelation ..
  | listComments => cases hmutates
  | getAttachment => cases hmutates
  | listRelations => cases hmutates

variable [Platform]

theorem ReadScoped.barred_create (deps : CardServiceDeps) (input : CreateCardInput)
    (options : CreateCardOptions) (origin : CardOrigin) :
    (CardService.createBody deps actor input options origin).Barred :=
  .bind fun _ => .bind fun _ => (h.barred_decide _ _).then _

theorem ReadScoped.barred_update (deps : CardServiceDeps) (cardId : ℕ) (input : UpdateCardInput) :
    (CardService.updateBody deps actor cardId input).Barred :=
  .bind fun _ => .bind fun _ => .bind fun _ => (h.barred_decide _ _).then _

theorem ReadScoped.barred_move (cardId : ℕ) (input : MoveCardInput) :
    (CardService.moveBody actor cardId input).Barred :=
  .bind fun _ => .bind fun _ => .bind fun _ => .bind fun _ => .bind fun _ =>
    (h.barred_decide _ _).then _

theorem ReadScoped.barred_cancel (cardId : ℕ) (input : CancelCardInput) :
    (CardService.cancelBody actor cardId input).Barred :=
  .bind fun _ => .bind fun _ => .bind fun _ => .bind fun _ => .bind fun _ =>
    (h.barred_decide _ _).then _

theorem ReadScoped.barred_reopen (cardId : ℕ) (input : VersionInput) :
    (CardService.reopenBody actor cardId input).Barred :=
  .bind fun _ => .bind fun _ => .bind fun _ => .bind fun _ => (h.barred_decide _ _).then _

theorem ReadScoped.barred_applyPolicy (boardId : Uuid) (document : PolicyDocument) :
    (PolicyService.apply boardId actor document).Barred := by
  unfold PolicyService.apply
  exact .bind fun _ => .bind fun _ => .bind fun _ => .bind fun _ => .bind fun _ => .bind fun _ =>
    .bind fun _ => .bind fun _ => (h.barred_decide _ _).then _

theorem ReadScoped.barred_createUser (deps : UserAdminServiceDeps) (raw : CreateUserInput)
    (temp : TempPassword) : (UserAdminService.create deps actor raw temp).Barred := by
  unfold UserAdminService.create
  exact .bind fun _ => .bind fun _ => .bind fun _ => .bind fun _ => (h.barred_permission _ _).then _

theorem ReadScoped.barred_administration {op : AdministrationOperation}
    (hcaller : caller (.administration op) = some actor) : op.body.Barred := by
  cases op <;> cases hcaller
  case applyPolicy => exact barred_discard (h.barred_applyPolicy ..)
  case createBoard => exact barred_discard (.bind fun _ => h.barred_lockAdministration.then _)
  case updateBoard => exact barred_discard (.bind fun _ => h.barred_lockAdministration.then _)
  case removeBoard => exact h.barred_lockAdministration.then _
  case setPreference => exact h.barred_setPreference _
  case saveGroup => exact barred_discard (.bind fun _ => h.barred_lockAdministration.then _)
  case removeGroup => exact h.barred_lockAdministration.then _
  case createLane => exact barred_discard (.bind fun _ => (h.barred_authorize _).then _)
  case updateLane => exact barred_discard (.bind fun _ => (h.barred_authorize _).then _)
  case removeLane => exact (h.barred_authorize _).then _
  case reorderLanes => exact barred_discard (.bind fun _ => (h.barred_authorize _).then _)
  case createLocation =>
    exact barred_discard (.bind fun _ => .bind fun _ => (h.barred_ensureGranted _ _).then _)
  case updateLocation => exact barred_discard (.bind fun _ => (h.barred_ensureGranted _ _).then _)
  case deleteLocation => exact (h.barred_ensureGranted _ _).then _
  case createUser => exact barred_discard (h.barred_createUser ..)
  case updateUser =>
    exact barred_discard (.bind fun _ => .bind fun _ => (h.barred_permission _ _).then _)

end bodies

/-- The call failed; no row changed, and every blob is still there. -/
structure Refused {β : Type} (s : Installation β)
    (outcome : Except DomainError Result × Installation β) : Prop where
  error : ∃ e, outcome.1 = .error e
  store : outcome.2.world.store = s.world.store
  blobs : ∀ key blob, s.blobs key = some blob → outcome.2.blobs key = some blob

section calls

variable {β : Type} {actor : Actor}

theorem Refused.map {α : Type} {s : Installation β} {outcome : Except DomainError α × Installation β}
    (f : α → Result) (herror : ∃ e, outcome.1 = .error e)
    (hstore : outcome.2.world.store = s.world.store)
    (hblobs : ∀ key blob, s.blobs key = some blob → outcome.2.blobs key = some blob) :
    Refused s (outcome.1.map f, outcome.2) := by
  obtain ⟨e, he⟩ := herror
  exact ⟨⟨e, by rw [he]; rfl⟩, hstore, hblobs⟩

/-- An upload that is refused takes no stored blob along: a key that is taken is never put. -/
theorem ReadScoped.refused_addAttachment (h : ReadScoped actor) (cardId : ℕ)
    (raw : AddAttachmentInput) (content : β) (s : Installation β) :
    (∃ e, (addAttachment actor cardId raw content s).1 = .error e) ∧
      (addAttachment actor cardId raw content s).2.world.store = s.world.store ∧
      ∀ key blob, s.blobs key = some blob →
        (addAttachment actor cardId raw content s).2.blobs key = some blob := by
  unfold addAttachment
  cases raw.parse with
  | error e => exact ⟨⟨e, rfl⟩, rfl, fun _ _ hkey => hkey⟩
  | ok input =>
    by_cases hbytes : AttachmentService.maxAttachmentBytes < input.byteLength
    · simp only [if_pos hbytes]
      exact ⟨⟨_, rfl⟩, by simp, fun _ _ hkey => hkey⟩
    · simp only [if_neg hbytes]
      by_cases htaken : (s.blobs s.world.peek.id).isSome = true
      · simp only [LocalBlobStore.put, htaken, if_true]
        exact ⟨⟨_, rfl⟩, by simp, fun _ _ hkey => hkey⟩
      · simp only [LocalBlobStore.put, htaken]
        have hrejected := (h.barred_addAttachment cardId raw).rejected s.world
        generalize transact (AttachmentService.add actor cardId raw) s.world = outcome
          at hrejected ⊢
        obtain ⟨_, w⟩ := outcome
        obtain ⟨e, rfl, hstore⟩ := hrejected
        refine ⟨⟨e, rfl⟩, hstore, fun key blob hkey => ?_⟩
        have hne : key ≠ s.world.peek.id := by
          rintro rfl
          simp [hkey] at htaken
        simpa [LocalBlobStore.delete, hne] using hkey

/-- A refused call drops no blob. -/
theorem refused_dropping {α : Type} {s : Installation β} (keys : α → List Uuid)
    {outcome : Except DomainError α × World Store Tick}
    (h : ∃ e, outcome.1 = .error e ∧ outcome.2.store = s.world.store) :
    (∃ e, (s.dropping keys outcome).1 = .error e) ∧
      (s.dropping keys outcome).2.world.store = s.world.store ∧
      ∀ key blob, s.blobs key = some blob → (s.dropping keys outcome).2.blobs key = some blob := by
  obtain ⟨_, w⟩ := outcome
  obtain ⟨e, rfl, hstore⟩ := h
  exact ⟨⟨e, rfl⟩, hstore, fun _ _ hkey => hkey⟩

theorem refused_inDatabase {s : Installation β}
    {outcome : Except DomainError Result × World Store Tick}
    (h : ∃ e, outcome.1 = .error e ∧ outcome.2.store = s.world.store) :
    Refused s (s.inDatabase outcome) := by
  obtain ⟨e, he, hstore⟩ := h
  exact ⟨⟨e, he⟩, hstore, fun _ _ hkey => hkey⟩

theorem rejected_respond {α : Type} {result : α → Result} {s : Store}
    {outcome : Except DomainError α × World Store Tick}
    (h : ∃ e, outcome.1 = .error e ∧ outcome.2.store = s) :
    ∃ e, (respond result outcome).1 = .error e ∧ (respond result outcome).2.store = s := by
  obtain ⟨e, he, hstore⟩ := h
  exact ⟨e, by rw [respond, he]; rfl, hstore⟩

theorem rejected_single {α : Type} {body : Tx α} (h : body.Barred) (w : World Store Tick) :
    ∃ e, ((⟨body, []⟩ : Attempts α).perform w).1 = .error e ∧
      ((⟨body, []⟩ : Attempts α).perform w).2.store = w.store :=
  h.rejected w

/-- Both attempts of an operation that places a card are barred, and so is its last word. -/
theorem rejected_retry {α : Type} {body : Tx α} (h : body.Barred) (current : Tx (Option Card))
    (w : World Store Tick) :
    ∃ e, ((runWithPositionRetry body current).perform w).1 = .error e ∧
      ((runWithPositionRetry body current).perform w).2.store = w.store := by
  apply Program.Barred.attempts_rejected
  intro q hq
  simp only [runWithPositionRetry, List.mem_cons, List.not_mem_nil, or_false] at hq
  rcases hq with rfl | rfl | rfl
  · exact h
  · exact h
  · exact .bind fun _ => .throw _

variable [Platform]

theorem ReadScoped.rejected_card (h : ReadScoped actor) {op : CardOperation}
    (hcaller : caller (.card op) = some actor) (hsweep : isSweep (.card op) = false)
    (w : World Store Tick) :
    ∃ e, (op.perform w).1 = .error e ∧ (op.perform w).2.store = w.store := by
  cases op with
  | create =>
    cases hcaller
    rw [CardOperation.perform, CardService.create]
    apply rejected_respond
    apply rejected_retry
    exact .bind fun _ => .bind fun _ => h.barred_create ..
  | update =>
    cases hcaller
    rw [CardOperation.perform, CardService.update]
    apply rejected_respond
    apply rejected_single
    exact .bind fun _ => h.barred_update ..
  | move =>
    cases hcaller
    rw [CardOperation.perform, CardService.move]
    apply rejected_respond
    apply rejected_retry
    exact .bind fun _ => h.barred_move ..
  | cancel =>
    cases hcaller
    rw [CardOperation.perform, CardService.cancel]
    apply rejected_respond
    apply rejected_retry
    exact .bind fun _ => h.barred_cancel ..
  | reopen =>
    cases hcaller
    rw [CardOperation.perform, CardService.reopen]
    apply rejected_respond
    apply rejected_retry
    exact .bind fun _ => h.barred_reopen ..
  | archive =>
    cases hcaller
    rw [CardOperation.perform, CardService.archive]
    apply rejected_respond
    apply rejected_single
    exact .bind fun _ => h.barred_archive ..
  | block =>
    cases hcaller
    rw [CardOperation.perform, CardService.block]
    apply rejected_respond
    apply rejected_single
    exact .bind fun _ => h.barred_flag ..
  | unblock =>
    cases hcaller
    rw [CardOperation.perform, CardService.unblock]
    apply rejected_respond
    apply rejected_single
    exact .bind fun _ => h.barred_flag ..
  | delete =>
    cases hcaller
    rw [CardOperation.perform, CardService.delete]
    apply rejected_respond
    apply rejected_single
    exact h.barred_delete ..
  | archiveExpired => cases hsweep
  | claimOverdueWaitingAlerts => cases hcaller

/-- Every mutation but the nightly sweep refuses a read-scope caller, whatever the policies,
the rows and the input, and leaves the database and the stored blobs as they were. -/
theorem read_scope_refused (s : Installation β) (content : β) (op : Operation)
    (hcaller : caller op = some actor) (hread : ReadScoped actor) (hmutates : mutates op = true)
    (hsweep : isSweep op = false) : Refused s (op.call s content) := by
  cases op with
  | card op =>
    have hrejected := hread.rejected_card hcaller hsweep s.world
    cases op with
    | delete _ cardId expectedVersion =>
      cases hcaller
      obtain ⟨herror, hstore, hblobs⟩ := refused_dropping (s := s) id
        (rejected_single (hread.barred_delete cardId expectedVersion) s.world)
      exact .map _ herror hstore hblobs
    | _ => exact refused_inDatabase hrejected
  | collaboration op =>
    have hrejected := (hread.barred_collaboration hcaller hmutates).rejected s.world
    cases op with
    | addAttachment _ cardId raw =>
      cases hcaller
      obtain ⟨herror, hstore, hblobs⟩ := hread.refused_addAttachment cardId raw content s
      exact .map _ herror hstore hblobs
    | removeAttachment _ attachmentId =>
      cases hcaller
      obtain ⟨herror, hstore, hblobs⟩ := refused_dropping (s := s)
        (fun attachment : Attachment => [attachment.storageKey])
        ((hread.barred_removeAttachment attachmentId).rejected s.world)
      exact .map _ herror hstore hblobs
    | _ => exact refused_inDatabase (rejected_respond hrejected)
  | administration op =>
    exact refused_inDatabase
      (rejected_respond ((hread.barred_administration hcaller).rejected s.world))

end calls

/-- A service token of the administrator role that may only read. -/
def readToken : Actor := { kind := .mcp, id := 200, role := "admin", scope := some .read }

theorem readScoped_readToken : ReadScoped readToken := ⟨.inl rfl, rfl⟩

/-- The sample clock, a hundred days later from the fortieth reading on. -/
def lateTicks (n : ℕ) : Tick :=
  if n < 40 then sampleTicks n else { sampleTicks n with now := 1000 * n + 100 * 86400000 }

/-- A card was completed a hundred days ago; one blob is stored. -/
def sampleInstallation : Installation Unit where
  world := { @run samplePlatform (freshlySeeded lateTicks)
    [.card (.create ⟨101, 102, .sqlite⟩ sampleActor { title := "Pump" } {}),
      .card (.move sampleActor 1 ⟨"done", none, none, none, none, 1⟩)] with drawn := 40 }
  blobs key := if key = 90 then some () else none

theorem read_scope_refused_block : Refused sampleInstallation
    (@Operation.call _ samplePlatform sampleInstallation ()
      (.card (.block readToken 1 ⟨"Part", 2⟩))) :=
  @read_scope_refused _ readToken samplePlatform sampleInstallation ()
    (.card (.block readToken 1 ⟨"Part", 2⟩)) rfl readScoped_readToken rfl rfl

/-- The sweep archives for a read-scope token: it takes its caller for the system. -/
theorem read_scope_sweeps : ¬ ∀ (_ : Platform) (β : Type) (s : Installation β) (content : β)
    (op : Operation) (actor : Actor), caller op = some actor → ReadScoped actor →
      mutates op = true → Refused s (op.call s content) := by
  intro h
  have hstore := (h samplePlatform Unit sampleInstallation () (.card (.archiveExpired readToken))
    readToken rfl readScoped_readToken rfl).store
  refine absurd (congrArg (fun s : Store => s.cards.rows.map (·.version)) hstore) ?_
  decide +kernel

end AiKanban.Invariants
