import AiKanban.Effects.Places
import AiKanban.Invariants.OptimisticOrder
import AiKanban.Server.AdminServices

/-!
# The marker of a move and the flag of the board

A move across lanes counts the active cards of its lane before it writes its row, and the board
counts them afterwards. The moved card is active and comes from another lane, so the two agree.
-/
namespace AiKanban.Invariants

open Application Domain Db Effects Policy Relational Server Services Transactions
open Services.CardService (crossLane exceedsWipLimit moveBody placedCard waitingKey)
open Services.BoardQueryService (activeRows boardSnapshot laneSnapshot snapshotOf)

section counts

variable {s s' : Store} {card next : Card} {laneId : Uuid}

def activeIn (laneId : Uuid) (card : Card) : Bool := card.laneId == laneId && card.archivedAt.isNone

/-- How many active cards a lane has. -/
def activeCount (s : Store) (laneId : Uuid) : ℕ := s.cards.rows.countP (activeIn laneId)

theorem length_activeRows : (activeRows s laneId).length = activeCount s laneId := by
  have hperm : (CardRepository.laneRows s laneId).Perm
      (s.cards.rows.filter fun c => c.laneId == laneId) := List.perm_insertionSort _ _
  unfold activeRows activeCount
  rw [(hperm.filter _).length_eq, List.filter_filter, List.countP_eq_length_filter]
  congr 1
  refine List.filter_congr ?_
  intro c _
  exact Bool.and_comm _ _

theorem flagged_iff {lane : Lane} : (laneSnapshot s lane).wipLimitExceeded = true ↔
    ∃ limit, lane.wipLimit = some limit ∧ limit < activeCount s lane.id := by
  simp [laneSnapshot, length_activeRows, Option.any_eq_true]

/-- A rewrite that leaves the card as active in a lane as it was leaves the count. -/
theorem activeCount_of_same (hmem : card ∈ s.cards.rows) (haccepted : s.cards.acceptsUpdate next = true)
    (hcards : s'.cards = s.cards.update next) (hid : next.id = card.id)
    (hsame : activeIn laneId next = activeIn laneId card) :
    activeCount s' laneId = activeCount s laneId := by
  have hcount := Table.countP_update (activeIn laneId) haccepted hmem hid
  rw [hsame] at hcount
  rw [activeCount, hcards]
  exact Nat.add_right_cancel hcount

/-- A card that becomes active in a lane adds one to its count. -/
theorem activeCount_of_arrival (hmem : card ∈ s.cards.rows)
    (haccepted : s.cards.acceptsUpdate next = true) (hcards : s'.cards = s.cards.update next)
    (hid : next.id = card.id) (hbefore : activeIn laneId card = false)
    (hafter : activeIn laneId next = true) : activeCount s' laneId = activeCount s laneId + 1 := by
  have hcount := Table.countP_update (activeIn laneId) haccepted hmem hid
  simpa [activeCount, hcards, hbefore, hafter] using hcount

end counts

section moves

variable {w w' w₁ : World Store Tick} {card r : Card}

theorem runs_exceedsWipLimit_iff {lane : Lane} {exceeded : Bool} :
    Runs (exceedsWipLimit lane) w exceeded w' ↔
      exceeded = lane.wipLimit.any (fun limit => decide (limit < activeCount w.store lane.id + 1)) ∧
        w' = w := by
  unfold exceedsWipLimit
  cases lane.wipLimit with
  | none => exact runs_pure_iff
  | some limit =>
    simp only [CardRepository.countActiveByLane, runs_bind_iff, runs_read_iff, runs_pure_iff]
    constructor
    · rintro ⟨active, _, ⟨rfl, rfl⟩, rfl, rfl⟩
      exact ⟨rfl, rfl⟩
    · rintro ⟨rfl, rfl⟩
      exact ⟨_, _, ⟨rfl, rfl⟩, rfl, rfl⟩

/-- The marker a move across lanes carries, from the cards as they were. -/
theorem runs_moved_marker {placed : Card} {fromLane toLane : Lane} {input : MoveCardInput}
    {fields : Option WaitingLaneEntry} {result : Card × CardEventBody}
    (h : Runs (CardService.moved card placed fromLane toLane input fields) w result w')
    (hother : toLane.id ≠ fromLane.id) : ∃ startedAt,
      result = (crossLane card placed fromLane toLane fields startedAt,
        .statusChanged ⟨fromLane.key, toLane.key, toLane.wipLimit.any fun limit =>
          decide (limit < activeCount w.store toLane.id + 1), decide (fromLane.key = waitingKey)⟩) := by
  simp only [CardService.moved, runs_ite_iff, runs_pure_iff, runs_bind_iff,
    runs_exceedsWipLimit_iff] at h
  rcases h with ⟨hsame, -⟩ | ⟨-, startedAt, w₁, hstart, exceeded, w₂, ⟨rfl, -⟩, rfl, -⟩
  · exact absurd hsame hother
  · have hstore : w₁.store = w.store := by
      simp only [CardService.workStart, runs_ite_iff, runs_clockNow_iff, runs_pure_iff] at hstart
      rcases hstart with ⟨-, -, rfl⟩ | ⟨-, -, rfl⟩ <;> rfl
    rw [hstore]
    exact ⟨startedAt, rfl⟩

/-- What an accepted move writes: in its own lane a reordering, and across lanes a change of status
with the marker. -/
inductive MarkedMove (s : Store) (card r : Card) (event : CardEvent) : Prop
  | reordered {key : LaneKey} {prev next : Option ℕ} (same : r.laneId = card.laneId)
      (body : event.body = .reordered key prev next)
  | crossed {fromKey : LaneKey} {toLane : Lane} {clearedWaiting : Bool}
      (other : toLane.id ≠ card.laneId) (lane : r.laneId = toLane.id)
      (mem : toLane ∈ s.lanes.rows) (board : toLane.boardId = card.boardId)
      (body : event.body = .statusChanged ⟨fromKey, toLane.key, toLane.wipLimit.any fun limit =>
        decide (limit < activeCount s toLane.id + 1), clearedWaiting⟩)

theorem runs_moveBody_marker [Platform] {actor : Actor} {cardId : ℕ} {input : MoveCardInput}
    (h : Runs (moveBody actor cardId input) w r w') :
    ∃ card event, w.store.cards.find? cardId = some card ∧ card.archivedAt = none ∧
      r.archivedAt = none ∧ Rewritten w w' card r [event] ∧ MarkedMove w.store card r event := by
  simp only [moveBody, runs_bind_iff, runs_ensureNotArchived_iff, runs_laneByKey_iff,
    runs_decidePolicy_iff, runs_ensureVersion_iff, runs_clockNow_iff] at h
  obtain ⟨card, _, hcard, _, _, ⟨hactive, rfl⟩, fromLane, _, hfrom, toLane, _, ⟨hto, rfl⟩, policy,
    _, hpolicy, _, _, ⟨-, rfl⟩, _, _, hgate, _, _, ⟨-, rfl⟩, fields, _, hfields, position,
    w₀, hposition, _, _, ⟨rfl, rfl⟩, ⟨updated, body⟩, w₁, hmoved, hwrite⟩ := h
  obtain ⟨rfl, hfound⟩ := runs_accessibleCard hcard
  obtain ⟨rfl, hlane⟩ := runs_laneOfCard hfrom
  obtain rfl := runs_activePolicy hpolicy
  obtain rfl := runs_ensureReopenAllowed hgate
  obtain rfl := hfields.of_readsOnly (readsOnly_waitingEntry _ _ _ _ _)
  obtain rfl := hposition.of_readsOnly (readsOnly_targetPosition _ _ _)
  obtain ⟨hmem, hboard, -⟩ := laneWithKey_mem hto
  obtain ⟨hdrew, hcases⟩ := runs_moved hmoved
  have hdrew' := (Drew.tick w₀).trans hdrew
  have hid : card.id = cardId := Table.find?_key hfound
  have hfound' : w₀.store.cards.find? card.id = some card := by rwa [hid]
  rcases hcases with ⟨hsame, hresult⟩ | ⟨hother, -⟩
  · cases hresult
    obtain ⟨rfl, event, hbody, hrewritten, -⟩ := runs_writeWithEvent hwrite hdrew' hfound' rfl
    exact ⟨card, event, hfound, hactive, hactive, hrewritten,
      .reordered (hsame.trans hlane.2.1) hbody⟩
  · obtain ⟨startedAt, hresult⟩ := runs_moved_marker hmoved hother
    cases hresult
    obtain ⟨_, _, _, _, _, hcross⟩ := crossLane_frame card
      (placedCard card toLane position w₀.peek.now) fromLane toLane fields startedAt
    obtain ⟨rfl, event, hbody, hrewritten, -⟩ :=
      runs_writeWithEvent hwrite hdrew' hfound' (crossLane_id _ _ _ _ _ _)
    refine ⟨card, event, hfound, hactive, ?_, hrewritten, .crossed (hlane.2.1 ▸ hother) ?_ hmem hboard
      hbody⟩
    · rw [hcross]
      exact hactive
    · rw [hcross]
      rfl

/-- What a lane of the board shows besides its cards. -/
def laneFlags (board : BoardSnapshot) : List (Lane × Bool) :=
  board.lanes.map fun lane => (lane.lane, lane.wipLimitExceeded)

theorem runs_boardSnapshot {boardId : Uuid} {actor : Actor} {board : BoardSnapshot}
    (h : Runs (boardSnapshot boardId actor) w board w') : board = snapshotOf w.store boardId := by
  obtain ⟨_, _, haccess, hread⟩ := runs_bind_iff.mp h
  obtain ⟨rfl, -⟩ := runs_requireBoardAccess haccess
  exact (runs_read_iff.mp hread).1

/-- The lanes of a board that have one id are its row, with the flag its count gives. -/
theorem mem_snapshot_lane {s : Store} {lane : Lane} {snapshot : LaneSnapshot}
    (hlane : lane ∈ s.lanes.rows) (hmem : snapshot ∈ (snapshotOf s boardId).lanes)
    (hid : snapshot.lane.id = lane.id) : snapshot = laneSnapshot s lane := by
  obtain ⟨row, hrow, rfl⟩ := List.mem_map.mp hmem
  rw [lane_eq_of_id (mem_boardLanes.mp hrow).1 hlane hid]

theorem laneFlags_congr {s s' : Store} (hlanes : s'.lanes = s.lanes)
    (hcounts : ∀ laneId, activeCount s' laneId = activeCount s laneId) (boardId : Uuid) :
    laneFlags (snapshotOf s' boardId) = laneFlags (snapshotOf s boardId) := by
  have hboard : LaneRepository.boardLanes s' boardId = LaneRepository.boardLanes s boardId := by
    unfold LaneRepository.boardLanes
    rw [hlanes]
  simp only [laneFlags, snapshotOf, List.map_map, hboard]
  refine List.map_congr_left ?_
  intro lane _
  simp [laneSnapshot, length_activeRows, hcounts]

/-- A move across lanes carries the marker exactly when the board it leaves flags the lane, and a
move within a lane carries none and changes no flag. -/
theorem wip_marker_agrees [Platform] {actor : Actor} {cardId : ℕ} {raw : MoveCardInput}
    (h : (CardService.move actor cardId raw).perform w = (.ok r, w')) :
    ∃ card event, w.store.cards.find? cardId = some card ∧
      w'.store.cardEvents.rows = w.store.cardEvents.rows ++ [event] ∧
      (r.laneId ≠ card.laneId → ∃ change, event.body = .statusChanged change ∧
        ∀ viewer board w₁, Runs (boardSnapshot card.boardId viewer) w' board w₁ →
          (∃ lane ∈ board.lanes, lane.lane.id = r.laneId) ∧
            ∀ lane ∈ board.lanes, lane.lane.id = r.laneId →
              (change.wipLimitExceeded = true ↔ lane.wipLimitExceeded = true)) ∧
      (r.laneId = card.laneId → (∃ key prev next, event.body = .reordered key prev next) ∧
        ∀ boardId viewer viewer' before after w₁ w₂, Runs (boardSnapshot boardId viewer) w before w₁ →
          Runs (boardSnapshot boardId viewer') w' after w₂ →
            laneFlags after = laneFlags before) := by
  obtain ⟨w₀, hdrew, hrun⟩ := perform_retry h
  obtain ⟨input, _, hparse, hbody⟩ := runs_bind_iff.mp hrun
  obtain ⟨-, rfl⟩ := runs_ofExcept_iff.mp hparse
  obtain ⟨card, event, hfound, hactive, hopen, hrewritten, hmarked⟩ := runs_moveBody_marker hbody
  have hafter := hrewritten.of_drew hdrew
  rw [hdrew.store] at hfound hmarked
  have hmem := Table.mem_of_find? hfound
  refine ⟨card, event, hfound, hafter.log, ?_, ?_⟩
  · intro hne
    cases hmarked with
    | reordered same => exact absurd same hne
    | @crossed fromKey toLane clearedWaiting other lane mem board body =>
      refine ⟨_, body, ?_⟩
      rintro viewer board₁ w₁ hboard
      obtain rfl := runs_boardSnapshot hboard
      have hlane : toLane ∈ w'.store.lanes.rows := by rwa [hafter.lanes]
      have hcount : activeCount w'.store toLane.id = activeCount w.store toLane.id + 1 := by
        refine activeCount_of_arrival hmem hafter.accepted hafter.cards hafter.key ?_ ?_
        · simp [activeIn, Ne.symm other]
        · simp [activeIn, lane, hopen]
      refine ⟨⟨_, List.mem_map_of_mem (mem_boardLanes.mpr ⟨hlane, board⟩), lane.symm⟩, ?_⟩
      intro snapshot hsnapshot hid
      rw [mem_snapshot_lane hlane hsnapshot (hid.trans lane), flagged_iff, hcount,
        Option.any_eq_true]
      simp
  · intro hsame
    cases hmarked with
    | crossed other lane => exact absurd (lane.symm.trans hsame) other
    | @reordered key prev next same body =>
      refine ⟨⟨key, prev, next, body⟩, ?_⟩
      intro boardId viewer viewer' before after w₁ w₂ hbefore hboard
      obtain rfl := runs_boardSnapshot hbefore
      obtain rfl := runs_boardSnapshot hboard
      refine laneFlags_congr hafter.lanes ?_ boardId
      intro laneId
      refine activeCount_of_same hmem hafter.accepted hafter.cards hafter.key ?_
      simp [activeIn, same, hactive, hopen]

end moves

/-- One of two cards in a lane that may hold one. -/
def limitedWorld : World Store Tick :=
  (transact (LaneAdminService.update 101 sampleActor 105 { wipLimit := some (some 1) })
    (@step samplePlatform twoCards
      (.card (.move sampleActor 1 ⟨"ready", none, none, none, none, 1⟩)))).2

/-- The other card goes there too. -/
def crowdedMove : Except DomainError Card × World Store Tick :=
  (@CardService.move samplePlatform sampleActor 2 ⟨"ready", some 1, none, none, none, 1⟩).perform
    limitedWorld

theorem wip_marker_agrees_crowded : ∃ r event change, crowdedMove.1 = .ok r ∧
    crowdedMove.2.store.cardEvents.rows = limitedWorld.store.cardEvents.rows ++ [event] ∧
    event.body = .statusChanged change ∧
    ∀ viewer board w₁, Runs (boardSnapshot 101 viewer) crowdedMove.2 board w₁ →
      ∀ lane ∈ board.lanes, lane.lane.id = r.laneId →
        (change.wipLimitExceeded = true ↔ lane.wipLimitExceeded = true) := by
  obtain ⟨r, hr⟩ : ∃ r, crowdedMove.1 = .ok r := exists_ok (by decide +kernel)
  obtain ⟨card, event, hfound, hlog, hcrossed, -⟩ := @wip_marker_agrees limitedWorld crowdedMove.2
    r samplePlatform sampleActor 2 ⟨"ready", some 1, none, none, none, 1⟩ (Prod.ext hr rfl)
  have hcard : (limitedWorld.store.cards.find? 2).map (fun c => (c.boardId, c.laneId)) =
      some (101, 103) := by decide +kernel
  rw [hfound] at hcard
  obtain ⟨hboard, hlane⟩ := Prod.mk.inj (Option.some.inj hcard)
  have hmoved : crowdedMove.1.toOption.map (·.laneId) = some 105 := by decide +kernel
  rw [hr] at hmoved
  have hother : r.laneId ≠ card.laneId := by
    intro hsame
    exact absurd ((Option.some.inj hmoved).symm.trans (hsame.trans hlane)) (by decide)
  obtain ⟨change, hbody, hagrees⟩ := hcrossed hother
  refine ⟨r, event, change, hr, hlog, hbody, ?_⟩
  intro viewer board w₁ hruns
  exact (hagrees viewer board w₁ (hboard ▸ hruns)).2

end AiKanban.Invariants
