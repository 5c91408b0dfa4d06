import AiKanban.Services.CardLifecycle
import AiKanban.Services.CardCollaboration

/-!
# What the guards establish

A guard only reads: when it lets a body go on, the world is as it was and the
guard's condition holds of the store.
-/
namespace AiKanban.Effects

open Domain Db Policy Relational Services Transactions Program

section readsOnly

theorem readsOnly_requireFound {α : Type} (value : Option α) (resource : String) :
    (requireFound value resource).ReadsOnly :=
  readsOnly_require _ _

theorem readsOnly_decidePolicy (decision : PolicyDecision) :
    (decidePolicy decision).ReadsOnly := by
  cases decision <;> trivial

theorem readsOnly_globalPolicy : globalPolicy.ReadsOnly :=
  (readsOnly_read _).bind fun _ => (readsOnly_requireFound _ _).bind fun _ =>
    (readsOnly_read _).bind fun _ => (readsOnly_requireFound _ _).bind fun _ => readsOnly_pure _

theorem readsOnly_activePolicy (boardId : Uuid) : (activePolicy boardId).ReadsOnly :=
  (readsOnly_read _).bind fun _ => (readsOnly_requireFound _ _).bind fun _ =>
    readsOnly_globalPolicy.bind fun _ => readsOnly_pure _

theorem readsOnly_memberOfAny (userId : Uuid) (ids : List Uuid) :
    (memberOfAny userId ids).ReadsOnly := by
  induction ids with
  | nil => exact readsOnly_pure _
  | cons id ids ih =>
    refine (readsOnly_read _).bind fun group => ?_
    split_ifs
    · exact readsOnly_pure _
    · exact ih

theorem readsOnly_canAccessBoard (actor : Actor) (board : Board) :
    (canAccessBoard actor board).ReadsOnly := by
  unfold canAccessBoard
  split
  · exact readsOnly_pure _
  · refine readsOnly_globalPolicy.bind fun policy => ?_
    split_ifs <;> first | exact readsOnly_pure _ | exact readsOnly_memberOfAny _ _

theorem readsOnly_requireBoardAccess (actor : Actor) (boardId : Uuid) :
    (requireBoardAccess actor boardId).ReadsOnly :=
  (readsOnly_read _).bind fun _ => (readsOnly_requireFound _ _).bind fun _ =>
    (readsOnly_canAccessBoard _ _).bind fun _ => (readsOnly_ensure _ _).bind fun _ =>
      readsOnly_pure _

theorem readsOnly_accessibleCard (actor : Actor) (cardId : ℕ) :
    (accessibleCard actor cardId).ReadsOnly :=
  (readsOnly_read _).bind fun _ => (readsOnly_requireFound _ _).bind fun _ =>
    (readsOnly_requireBoardAccess _ _).bind fun _ => readsOnly_pure _

theorem readsOnly_firstLane (boardId : Uuid) : (firstLane boardId).ReadsOnly :=
  (readsOnly_read _).bind fun _ => readsOnly_requireFound _ _

theorem readsOnly_laneOfCard (card : Card) : (laneOfCard card).ReadsOnly :=
  (readsOnly_read _).bind fun _ => readsOnly_requireFound _ _

theorem readsOnly_laneByKey (boardId : Uuid) (key : LaneKey) : (laneByKey boardId key).ReadsOnly :=
  (readsOnly_read _).bind fun _ => readsOnly_requireFound _ _

theorem readsOnly_requireAssignable (deps : CardServiceDeps) (assigneeId boardId : Uuid) :
    (CardService.requireAssignable deps assigneeId boardId).ReadsOnly :=
  (readsOnly_read _).bind fun _ => (readsOnly_requireFound _ _).bind fun _ =>
    (readsOnly_read _).bind fun _ => (readsOnly_requireFound _ _).bind fun _ =>
      (readsOnly_ensure _ _).bind fun _ => (readsOnly_canAccessBoard _ _).bind fun _ =>
        readsOnly_ensure _ _

theorem readsOnly_requireLocation (locationId : Uuid) :
    (CardService.requireLocation locationId).ReadsOnly :=
  (readsOnly_read _).bind fun _ => (readsOnly_requireFound _ _).bind fun _ => readsOnly_pure _

theorem readsOnly_forPresent {α : Type} {value : Option α} {body : α → Tx Unit}
    (h : ∀ a, (body a).ReadsOnly) : (CardService.forPresent value body).ReadsOnly := by
  cases value with
  | none => exact readsOnly_pure _
  | some a => exact h a

theorem readsOnly_ensureActiveWaitingReason (policy : PolicyDocument) (reason : WaitingReason)
    (card : Card) : (CardService.ensureActiveWaitingReason policy reason card).ReadsOnly :=
  readsOnly_ensure _ _

end readsOnly

section runs

variable {w w' : World Store Tick}

@[simp] theorem runs_requireFound_iff {α : Type} {value : Option α} {resource : String} {a : α} :
    Runs (requireFound value resource) w a w' ↔ value = some a ∧ w' = w :=
  runs_require_iff

@[simp] theorem runs_ensureNotArchived_iff {card : Card} {u : Unit} :
    Runs (ensureNotArchived card) w u w' ↔ card.archivedAt = none ∧ w' = w := by
  simp [ensureNotArchived]

@[simp] theorem runs_ensureVersion_iff {card : Card} {v : ℕ} {u : Unit} :
    Runs (ensureVersion card v) w u w' ↔ card.version = v ∧ w' = w := by
  simp [ensureVersion]

@[simp] theorem runs_decidePolicy_iff {decision : PolicyDecision} {u : Unit} :
    Runs (decidePolicy decision) w u w' ↔ decision = .allow ∧ w' = w := by
  cases decision with
  | allow => simp [decidePolicy]
  | denied rule => simp [decidePolicy]
  | illegalTransition a b => simp [decidePolicy]

@[simp] theorem runs_clockNow_iff {now : Instant} :
    Runs clockNow w now w' ↔ now = w.peek.now ∧ w' = w.tick := by
  simp [clockNow, and_comm]

@[simp] theorem runs_newId_iff {id : Uuid} :
    Runs newId w id w' ↔ id = w.peek.id ∧ w' = w.tick := by
  simp [newId, and_comm]

theorem runs_activePolicy {boardId : Uuid} {policy : PolicyDocument}
    (h : Runs (activePolicy boardId) w policy w') : w' = w :=
  h.of_readsOnly (readsOnly_activePolicy boardId)

theorem runs_requireBoardAccess {actor : Actor} {boardId : Uuid} {board : Board}
    (h : Runs (requireBoardAccess actor boardId) w board w') :
    w' = w ∧ w.store.boards.find? boardId = some board := by
  refine ⟨h.of_readsOnly (readsOnly_requireBoardAccess actor boardId), ?_⟩
  simp only [requireBoardAccess, BoardRepository.findById, runs_bind_iff, runs_selectKey_iff,
    runs_requireFound_iff, runs_ensure_iff, runs_pure_iff] at h
  obtain ⟨_, _, ⟨rfl, rfl⟩, found, _, ⟨hfound, rfl⟩, _, _, _, _, _, _, hboard, _⟩ := h
  rw [hboard]
  exact hfound

/-- Whose card it is does not matter here: the card is there and the world unchanged. -/
theorem runs_accessibleCard {actor : Actor} {cardId : ℕ} {card : Card}
    (h : Runs (accessibleCard actor cardId) w card w') :
    w' = w ∧ w.store.cards.find? cardId = some card := by
  refine ⟨h.of_readsOnly (readsOnly_accessibleCard actor cardId), ?_⟩
  simp only [accessibleCard, CardRepository.findById, runs_bind_iff, runs_selectKey_iff,
    runs_requireFound_iff, runs_pure_iff] at h
  obtain ⟨_, _, ⟨rfl, rfl⟩, found, _, ⟨hfound, rfl⟩, _, _, _, hcard, _⟩ := h
  rw [hcard]
  exact hfound

/-- The lane a board's cards are created in. -/
def entryLane (s : Store) (boardId : Uuid) : Option Lane :=
  (LaneRepository.boardLanes s boardId).head?

theorem mem_boardLanes {s : Store} {boardId : Uuid} {lane : Lane} :
    lane ∈ LaneRepository.boardLanes s boardId ↔ lane ∈ s.lanes.rows ∧ lane.boardId = boardId := by
  simp [LaneRepository.boardLanes]

theorem entryLane_mem {s : Store} {boardId : Uuid} {lane : Lane}
    (h : entryLane s boardId = some lane) : lane ∈ s.lanes.rows ∧ lane.boardId = boardId :=
  mem_boardLanes.mp (List.mem_of_head? h)

theorem laneWithKey_mem {s : Store} {boardId : Uuid} {key : LaneKey} {lane : Lane}
    (h : LaneRepository.laneWithKey s boardId key = some lane) :
    lane ∈ s.lanes.rows ∧ lane.boardId = boardId ∧ lane.key = key := by
  have hp := List.find?_some h
  simp only [Bool.and_eq_true, beq_iff_eq] at hp
  exact ⟨List.mem_of_find?_eq_some h, hp⟩

@[simp] theorem runs_firstLane_iff {boardId : Uuid} {lane : Lane} :
    Runs (firstLane boardId) w lane w' ↔ entryLane w.store boardId = some lane ∧ w' = w := by
  simp [firstLane, LaneRepository.listByBoard, entryLane, and_comm]

@[simp] theorem runs_findByKey_iff {boardId : Uuid} {key : LaneKey} {lane : Option Lane} :
    Runs (LaneRepository.findByKey boardId key) w lane w' ↔
      lane = LaneRepository.laneWithKey w.store boardId key ∧ w' = w := by
  simp [LaneRepository.findByKey]

@[simp] theorem runs_laneByKey_iff {boardId : Uuid} {key : LaneKey} {lane : Lane} :
    Runs (laneByKey boardId key) w lane w' ↔
      LaneRepository.laneWithKey w.store boardId key = some lane ∧ w' = w := by
  simp [laneByKey, eq_comm, and_comm]

/-- The lane row a card points at, on its own board. -/
def LaneOf (s : Store) (card : Card) (lane : Lane) : Prop :=
  lane ∈ s.lanes.rows ∧ lane.id = card.laneId ∧ lane.boardId = card.boardId

theorem runs_laneOfCard {card : Card} {lane : Lane} (h : Runs (laneOfCard card) w lane w') :
    w' = w ∧ LaneOf w.store card lane := by
  simp only [laneOfCard, LaneRepository.listByBoard, runs_bind_iff, runs_read_iff,
    runs_requireFound_iff] at h
  obtain ⟨_, _, ⟨rfl, rfl⟩, hfind, rfl⟩ := h
  obtain ⟨hmem, hboard⟩ := mem_boardLanes.mp (List.mem_of_find?_eq_some hfind)
  exact ⟨rfl, hmem, by simpa using List.find?_some hfind, hboard⟩

/-- A board's lanes have distinct keys. -/
theorem lane_eq_of_key {s : Store} {a b : Lane} (ha : a ∈ s.lanes.rows) (hb : b ∈ s.lanes.rows)
    (hboard : a.boardId = b.boardId) (hkey : a.key = b.key) : a = b := by
  by_contra hne
  have hsymm : Std.Symm fun x y : Lane => Row.clash x y = false :=
    ⟨fun x y h => (Row.clash_symm y x).trans h⟩
  have hclash := s.lanes.distinct.forall ha hb hne
  simp [Row.clash, hboard, hkey] at hclash

theorem lane_eq_of_id {s : Store} {a b : Lane} (ha : a ∈ s.lanes.rows) (hb : b ∈ s.lanes.rows)
    (hid : a.id = b.id) : a = b :=
  Table.eq_of_key ha hb hid

end runs
end AiKanban.Effects
