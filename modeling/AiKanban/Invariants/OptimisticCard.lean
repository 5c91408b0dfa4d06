import AiKanban.Invariants.UndoneMoves
import AiKanban.Web.ActionEntries

/-!
# The optimistic card

The row that the web client gives at once to a moved card has the waiting fields of the intent.
The server reads them only for a card that enters the waiting lane; one that stays there keeps its
own.
-/
namespace AiKanban.Invariants

open Domain Db Relational Services Services.CardService Transactions Effects Web
open Application

section inserting

variable {cards : List BoardCard} {card c : BoardCard} {prevCardId nextCardId : Option ℕ}

theorem mem_insertBetweenNeighbors :
    c ∈ insertBetweenNeighbors cards card prevCardId nextCardId ↔ c = card ∨ c ∈ cards := by
  have hsplit : ∀ index, c ∈ cards.take index ++ card :: cards.drop index ↔ c = card ∨ c ∈ cards := by
    intro index
    rw [List.mem_append, List.mem_cons, or_left_comm, ← List.mem_append, List.take_append_drop]
  unfold insertBetweenNeighbors
  cases prevCardId.bind fun id => cards.findIdx? (·.id = id) with
  | some index => exact hsplit _
  | none =>
    cases nextCardId.bind fun id => cards.findIdx? (·.id = id) with
    | some index => exact hsplit _
    | none =>
      dsimp only
      split_ifs
      · exact List.mem_cons
      · rw [List.mem_append, List.mem_singleton, or_comm]

variable {view : BoardResponse} {cardId : ℕ} {intent : MoveIntent} {boardId : Uuid} {s : Store}

/-- Of the cards of a lane after a move only the moved one has its id. -/
theorem eq_of_mem_cardsAfter {snapshot : LaneSnapshot}
    (h : c ∈ cardsAfter snapshot card cardId intent) (hid : c.id = cardId) : c = card := by
  unfold cardsAfter at h
  have hother : c ∉ snapshot.cards.filter (·.id ≠ cardId) := by
    intro hc
    exact of_decide_eq_true (List.mem_filter.mp hc).2 hid
  split_ifs at h
  · exact (mem_insertBetweenNeighbors.mp h).resolve_right hother
  · exact absurd h hother

/-- The view after a move shows the moved card in its new lane. -/
theorem currentCard_applyMoveToBoard (hshown : cardId ∈ cardIds view) {target : LaneSnapshot}
    (hview : ViewOf s boardId view) (htarget : target ∈ view.lanes)
    (hkey : target.lane.key = intent.toLane) :
    ∃ moving : BoardCard,
      currentCard (applyMoveToBoard view cardId intent) cardId =
        some (movedTo moving target.lane intent) := by
  obtain ⟨home, hhome, hin⟩ := List.mem_flatMap.mp hshown
  obtain ⟨first, hfirst, hid⟩ := List.mem_map.mp hin
  obtain ⟨moving, hmoving⟩ := Option.isSome_iff_exists.mp (List.find?_isSome.mpr
    ⟨first, List.mem_flatMap.mpr ⟨home, hhome, hfirst⟩, by simpa using hid⟩ :
      ((view.lanes.flatMap (·.cards)).find? (·.id = cardId)).isSome)
  obtain ⟨found, hfound⟩ := Option.isSome_iff_exists.mp
    (List.find?_isSome.mpr ⟨target, htarget, by simpa using hkey⟩ :
      (view.lanes.find? (·.lane.key = intent.toLane)).isSome)
  have hmovingId : moving.id = cardId := by simpa using List.find?_some hmoving
  have hfoundKey : found.lane.key = intent.toLane := by simpa using List.find?_some hfound
  obtain rfl : found = target := by
    obtain ⟨hmem, hboard⟩ := hview.lane_mem (List.mem_of_find?_eq_some hfound)
    obtain ⟨hmem', hboard'⟩ := hview.lane_mem htarget
    refine hview.snapshot_eq (List.mem_of_find?_eq_some hfound) htarget (congrArg Lane.id ?_)
    exact lane_eq_of_key hmem hmem' (hboard.trans hboard'.symm) (hfoundKey.trans hkey.symm)
  refine ⟨moving, ?_⟩
  rw [applyMoveToBoard, hmoving, hfound]
  set moved := movedTo moving found.lane intent with hmoved
  set after := view.lanes.map fun snapshot =>
    let cards := cardsAfter snapshot moved cardId intent
    { snapshot with
      cards
      wipLimitExceeded := snapshot.lane.wipLimit.any fun limit => decide (limit < cards.length) }
    with hafter
  change (after.flatMap (·.cards)).find? (·.id = cardId) = some moved
  have hplaced : moved ∈ after.flatMap (·.cards) := by
    refine List.mem_flatMap.mpr ⟨_, List.mem_map_of_mem htarget, ?_⟩
    simp only [cardsAfter, if_pos hfoundKey]
    exact mem_insertBetweenNeighbors.mpr (.inl rfl)
  obtain ⟨c, hc⟩ := Option.isSome_iff_exists.mp (List.find?_isSome.mpr
    ⟨moved, hplaced, decide_eq_true hmovingId⟩ :
      ((after.flatMap (·.cards)).find? (·.id = cardId)).isSome)
  rw [hc]
  obtain ⟨_, hsnapshot, hin⟩ := List.mem_flatMap.mp (List.mem_of_find?_eq_some hc)
  obtain ⟨snapshot, -, rfl⟩ := List.mem_map.mp hsnapshot
  exact congrArg some (eq_of_mem_cardsAfter hin (by simpa using List.find?_some hc))

end inserting

/-- What the client shows of the lane and of what the card waits for is what the server says. -/
def SameShown (shown : BoardCard) (r : Card) : Prop :=
  shown.laneId = r.laneId ∧ shown.waitingReason = r.waitingReason ∧
    shown.expectedResumeAt = r.expectedResumeAt

section rows

variable {card r : Card} {moving : BoardCard} {fromLane toLane : Lane} {intent : MoveIntent}

/-- A card that stays in its lane keeps what it waits for. -/
theorem sameShown_carried (hkey : toLane.key = intent.toLane) (hlane : r.laneId = toLane.id)
    (hidle : idleRule toLane.key card) (hcarried : Carried card r) :
    SameShown (movedTo moving toLane intent) r ↔
      (intent.toLane = waitingKey → intent.waitingReason = card.waitingReason ∧
        intent.expectedResumeAt = card.expectedResumeAt) := by
  unfold SameShown movedTo isWaitingLane
  rw [hlane, hcarried.waitingReason, hcarried.expectedResumeAt]
  by_cases hwaiting : intent.toLane = waitingKey
  · simp [hwaiting, waitingKey]
  · obtain ⟨hreason, hday⟩ := hidle (hkey ▸ hwaiting)
    have hother : ¬ intent.toLane = "waiting_parts_vendor" := hwaiting
    simp [hother, hwaiting, hreason, hday]

/-- A card that enters the waiting lane gets the fields of the intent, any other has none. -/
theorem sameShown_crossed {version : ℕ} (hkey : toLane.key = intent.toLane)
    (hlane : r.laneId = toLane.id) (hother : toLane.key ≠ fromLane.key)
    (hidle : idleRule fromLane.key card)
    (hcrossed : Crossed (intent.ifMatch version) fromLane toLane card r) :
    SameShown (movedTo moving toLane intent) r := by
  obtain ⟨fields, hentry, hreason, hday⟩ := hcrossed.waiting
  unfold SameShown movedTo isWaitingLane
  rw [hlane, hreason, hday]
  rcases hentry with ⟨hwaiting, entry, rfl, hparse⟩ | ⟨hnot, rfl⟩
  · have hfrom : fromLane.key ≠ waitingKey := fun h => hother (hwaiting.trans h.symm)
    have hto : intent.toLane = "waiting_parts_vendor" := hkey.symm.trans hwaiting
    change WaitingLaneEntry.parse intent.waitingReason intent.expectedResumeAt = .ok entry at hparse
    cases hgiven : intent.waitingReason with
    | none =>
      rw [hgiven] at hparse
      cases hparse
    | some reason =>
      cases hresume : intent.expectedResumeAt with
      | none =>
        rw [hgiven, hresume] at hparse
        cases hparse
      | some day =>
        rw [hgiven, hresume] at hparse
        cases hparse
        simp [hto, hfrom]
  · have hto : ¬ intent.toLane = "waiting_parts_vendor" := fun h => hnot (hkey.trans h)
    by_cases hfrom : fromLane.key = waitingKey
    · simp [hto, hfrom]
    · obtain ⟨hnone, hnone'⟩ := hidle hfrom
      simp [hto, hfrom, hnone, hnone']

end rows

/-- The row that the client shows at once of a move the server accepts is the server's, as to its
lane and what it waits for, unless the card stays in the waiting lane: there the client takes the
fields of the intent, and the server keeps those of the card. -/
theorem optimistic_card_iff [Platform] (inputs : ℕ → Tick) (ops : List Operation)
    (w w' : World Store Tick) (card r : Card) (lane : Lane) (view : BoardResponse)
    (intent : MoveIntent) (actor : Actor) (version : ℕ) (hw : w = run (freshlySeeded inputs) ops)
    (hfound : w.store.cards.find? card.id = some card) (hlane : LaneOf w.store card lane)
    (hview : ViewOf w.store card.boardId view) (hshown : card.id ∈ cardIds view)
    (haccepted : (CardService.move actor card.id (intent.ifMatch version)).perform w = (.ok r, w')) :
    ∃ shown, currentCard (applyMoveToBoard view card.id intent) card.id = some shown ∧
      (SameShown shown r ↔
        (lane.key = waitingKey → intent.toLane = waitingKey →
          intent.waitingReason = card.waitingReason ∧
            intent.expectedResumeAt = card.expectedResumeAt)) := by
  have hidle : idleRule lane.key card := by
    subst hw
    exact (placed_idle inputs ops).rule_of (Table.mem_of_find? hfound) hlane
  obtain ⟨w₁, hdrew, hbody⟩ := perform_retry haccepted
  obtain ⟨input, hparse, hrest⟩ := runs_parse_iff.mp hbody
  obtain rfl := move_parse_eq hparse
  obtain ⟨found, event, hchanged⟩ := runs_moveBody hparse hrest
  obtain ⟨c, fromLane, toLane, hcard, hfrom, hto, -, hid, hlaneId⟩ := runs_moveBody_target hrest
  have hchange := hchanged.change
  have hr := hchanged.rewritten.of_drew hdrew
  rw [hdrew.store] at hcard hfrom hto hchange
  obtain rfl : c = card := Option.some.inj (hcard.symm.trans hfound)
  obtain rfl : found = c :=
    Table.eq_of_key (Table.mem_of_find? hr.found) (Table.mem_of_find? hfound)
      (hr.key.symm.trans hid)
  obtain rfl := LaneOf.unique hlane hfrom
  have hrow := movedRow_of_change hchange hlane hto hlaneId
  obtain ⟨htoMem, htoBoard, htoKey⟩ := laneWithKey_mem hto
  change toLane.key = intent.toLane at htoKey
  obtain ⟨target, htarget, rfl⟩ : ∃ target ∈ view.lanes, target.lane = toLane := by
    apply List.mem_map.mp
    rw [hview.lanes]
    exact mem_boardLanes.mpr ⟨htoMem, htoBoard⟩
  obtain ⟨moving, hcurrent⟩ := currentCard_applyMoveToBoard hshown hview htarget htoKey
  refine ⟨_, hcurrent, ?_⟩
  rcases hrow.fields with ⟨hsame, hcarried⟩ | ⟨hother, hcrossed⟩
  · obtain rfl : target.lane = lane := lane_eq_of_id htoMem hlane.1 hsame
    rw [sameShown_carried htoKey hlaneId hidle hcarried]
    exact ⟨fun h _ => h, fun h hto => h (htoKey.trans hto) hto⟩
  · have hkeys : target.lane.key ≠ lane.key := by
      intro hkey
      exact hother (congrArg Lane.id (lane_eq_of_key htoMem hlane.1 (htoBoard.trans hlane.2.2.symm) hkey))
    refine iff_of_true (sameShown_crossed htoKey hlaneId hkeys hidle hcrossed) ?_
    intro hfromWaiting htoWaiting
    exact absurd (htoKey.trans (htoWaiting.trans hfromWaiting.symm)) hkeys

/-- Two cards that wait, the second one below the first. -/
def twoWaiting : World Store Tick :=
  @run samplePlatform (freshlySeeded sampleTicks) (toWaiting ++
    [.card (.create ⟨101, 102, .sqlite⟩ sampleActor { title := "Valve" } {}),
      .card (.move sampleActor 2 ⟨"waiting_parts_vendor", some 1, none, some "vendor", some 20001, 1⟩)])

/-- The first one, dropped on the lower edge of the second. -/
def dropBelow : MoveIntent := ⟨"waiting_parts_vendor", some 2, none, none, none⟩

/-- The card goes on to the review lane, where it waits for nothing. -/
theorem optimistic_card_review :
    ∃ shown, currentCard (applyMoveToBoard (BoardQueryService.snapshotOf twoWaiting.store 101) 1
        ⟨"review", none, none, none, none⟩) 1 = some shown ∧
      ∃ r, ((@CardService.move samplePlatform sampleActor 1
        ⟨"review", none, none, none, none, 2⟩).perform twoWaiting).1 = .ok r ∧
          SameShown shown r := by
  obtain ⟨r, haccepted⟩ : ∃ r, ((@CardService.move samplePlatform sampleActor 1
      ((⟨"review", none, none, none, none⟩ : MoveIntent).ifMatch 2)).perform twoWaiting).1 = .ok r :=
    exists_ok (by decide +kernel)
  obtain ⟨card, hfound, lane, hmem, hlaneId, hboard, hon⟩ : ∃ card ∈ twoWaiting.store.cards.find? 1,
      ∃ lane ∈ twoWaiting.store.lanes.rows,
        lane.id = card.laneId ∧ lane.boardId = card.boardId ∧ card.boardId = 101 := by
    decide +kernel
  have hone : card.id = 1 := Table.find?_key hfound
  have hids : 1 ∈ cardIds (BoardQueryService.snapshotOf twoWaiting.store 101) := by decide +kernel
  obtain ⟨shown, hshown, hiff⟩ := @optimistic_card_iff samplePlatform sampleTicks _ twoWaiting _ card
    r lane (BoardQueryService.snapshotOf twoWaiting.store 101) ⟨"review", none, none, none, none⟩
    sampleActor 2 rfl (hone ▸ hfound) ⟨hmem, hlaneId, hboard⟩ (hon ▸ viewOf_snapshotOf _ _)
    (hone ▸ hids) (by rw [hone]; exact Prod.ext haccepted rfl)
  rw [hone] at hshown
  exact ⟨shown, hshown, r, haccepted, hiff.mpr fun _ h => nomatch h⟩

/-- The client shows a card dropped within the waiting lane to wait for nothing. -/
theorem optimistic_card_fails :
    moveIntentFromDrop (BoardQueryService.snapshotOf twoWaiting.store 101) 1
        ⟨"waiting_parts_vendor", some 2, some .bottom⟩ = some dropBelow ∧
      (currentCard (applyMoveToBoard (BoardQueryService.snapshotOf twoWaiting.store 101) 1 dropBelow)
        1).map (fun shown => (shown.waitingReason, shown.expectedResumeAt)) = some (none, none) ∧
      ((@CardService.move samplePlatform sampleActor 1 (dropBelow.ifMatch 2)).perform
        twoWaiting).1.toOption.map (fun r => (r.waitingReason, r.expectedResumeAt)) =
          some (some "parts", some 20000) := by
  decide +kernel

end AiKanban.Invariants
