import AiKanban.Effects.Access
import AiKanban.Effects.Places

/-!
# When a mutation is accepted again

A guard answers the same on two stores that agree on the tables it reads. A row that fits is
written, and its event with it as long as the ids drawn are fresh.
-/
namespace AiKanban.Effects

open Domain Db Policy Relational Services Services.CardService Transactions

/-- Two stores agree on all that the guards of a card mutation read besides cards. -/
structure SameGuards (s s' : Store) : Prop where
  users : s'.users = s.users
  boards : s'.boards = s.boards
  groups : s'.groups = s.groups
  lanes : s'.lanes = s.lanes
  locations : s'.locations = s.locations
  boardPolicies : s'.boardPolicies = s.boardPolicies

theorem SameGuards.trans {s s' s'' : Store} (h : SameGuards s s') (h' : SameGuards s' s'') :
    SameGuards s s'' where
  users := h'.users.trans h.users
  boards := h'.boards.trans h.boards
  groups := h'.groups.trans h.groups
  lanes := h'.lanes.trans h.lanes
  locations := h'.locations.trans h.locations
  boardPolicies := h'.boardPolicies.trans h.boardPolicies

theorem Rewritten.sameGuards {w w' : World Store Tick} {card next : Card} {events : List CardEvent}
    (h : Rewritten w w' card next events) : SameGuards w.store w'.store where
  users := h.frame .users (by decide)
  boards := h.frame .boards (by decide)
  groups := h.frame .groups (by decide)
  lanes := h.frame .lanes (by decide)
  locations := h.frame .locations (by decide)
  boardPolicies := h.frame .boardPolicies (by decide)

section guards

variable {w w₁ : World Store Tick} {actor : Actor} {card card₁ : Card}

theorem runs_globalPolicy_same {policy : PolicyDocument} (h : Runs globalPolicy w policy w)
    (hsame : SameGuards w.store w₁.store) : Runs globalPolicy w₁ policy w₁ := by
  simp only [globalPolicy, BoardRepository.getDefault, PolicyRepository.getActive, runs_bind_iff,
    runs_read_iff, runs_requireFound_iff, runs_pure_iff] at h ⊢
  obtain ⟨_, _, ⟨rfl, rfl⟩, board, _, ⟨hboard, rfl⟩, _, _, ⟨rfl, rfl⟩, row, _, ⟨hrow, rfl⟩, rfl, -⟩ := h
  refine ⟨_, _, ⟨rfl, rfl⟩, board, _, ⟨?_, rfl⟩, _, _, ⟨rfl, rfl⟩, row, _, ⟨?_, rfl⟩, rfl, rfl⟩
  · rw [hsame.boards]
    exact hboard
  · rw [PolicyRepository.newest, hsame.boardPolicies]
    exact hrow

theorem runs_activePolicy_same {boardId : Uuid} {policy : PolicyDocument}
    (h : Runs (activePolicy boardId) w policy w) (hsame : SameGuards w.store w₁.store) :
    Runs (activePolicy boardId) w₁ policy w₁ := by
  simp only [activePolicy, PolicyRepository.getActive, runs_bind_iff, runs_read_iff,
    runs_requireFound_iff, runs_pure_iff] at h ⊢
  obtain ⟨_, _, ⟨rfl, rfl⟩, own, _, ⟨hown, rfl⟩, shared, _, hshared, rfl, rfl⟩ := h
  refine ⟨_, _, ⟨rfl, rfl⟩, own, _, ⟨?_, rfl⟩, shared, _, runs_globalPolicy_same hshared hsame, rfl, rfl⟩
  rw [PolicyRepository.newest, hsame.boardPolicies]
  exact hown

theorem runs_canAccessBoard_same {board : Board} {answer : Bool}
    (h : Runs (canAccessBoard actor board) w answer w) (hsame : SameGuards w.store w₁.store) :
    Runs (canAccessBoard actor board) w₁ answer w₁ := by
  by_cases harchived : board.archivedAt.isSome
  · simp only [canAccessBoard, if_pos harchived, runs_pure_iff] at h ⊢
    exact ⟨h.1, trivial⟩
  · have hread : ∃ policy, Runs globalPolicy w policy w := by
      simp only [canAccessBoard, if_neg harchived, runs_bind_iff] at h
      obtain ⟨policy, w', hpolicy, -⟩ := h
      obtain rfl := hpolicy.of_readsOnly readsOnly_globalPolicy
      exact ⟨policy, hpolicy⟩
    obtain ⟨policy, hpolicy⟩ := hread
    rw [(runs_canAccessBoard_iff hpolicy).mp h]
    have hmember : memberIn w₁.store actor.id board.allowedGroupIds =
        memberIn w.store actor.id board.allowedGroupIds := by
      simp only [memberIn, hsame.groups]
    refine (runs_canAccessBoard_iff (runs_globalPolicy_same hpolicy hsame)).mpr ?_
    rw [accessibleUnder, accessibleUnder, hmember]

theorem runs_accessibleCard_same (h : Runs (accessibleCard actor card.id) w card w)
    (hsame : SameGuards w.store w₁.store) (hfound : w₁.store.cards.find? card.id = some card₁)
    (hboard : card₁.boardId = card.boardId) :
    Runs (accessibleCard actor card.id) w₁ card₁ w₁ := by
  simp only [accessibleCard, requireBoardAccess, CardRepository.findById, BoardRepository.findById,
    runs_bind_iff, runs_selectKey_iff, runs_requireFound_iff, runs_ensure_iff, runs_pure_iff] at h ⊢
  obtain ⟨_, _, ⟨rfl, rfl⟩, found, _, ⟨hcard, rfl⟩, board, _,
    ⟨_, _, ⟨rfl, rfl⟩, row, _, ⟨hrow, rfl⟩, answer, _, haccess, _, _, ⟨hallowed, rfl⟩, rfl, rfl⟩,
    rfl, -⟩ := h
  obtain rfl := haccess.of_readsOnly (readsOnly_canAccessBoard _ _)
  refine ⟨_, _, ⟨rfl, rfl⟩, card₁, _, ⟨hfound, rfl⟩, board, _,
    ⟨_, _, ⟨rfl, rfl⟩, board, _, ⟨?_, rfl⟩, answer, _, runs_canAccessBoard_same haccess hsame,
      (), _, ⟨hallowed, rfl⟩, rfl, rfl⟩, rfl, rfl⟩
  rw [hboard]
  change w₁.store.boards.find? card.boardId = some board
  rw [hsame.boards]
  exact hrow

/-- A card has one lane. -/
theorem runs_laneOfCard_of {lane : Lane} (h : LaneOf w.store card lane) :
    Runs (laneOfCard card) w lane w := by
  simp only [laneOfCard, LaneRepository.listByBoard, runs_bind_iff, runs_read_iff,
    runs_requireFound_iff]
  refine ⟨_, _, ⟨rfl, rfl⟩, ?_, rfl⟩
  have hmem : lane ∈ LaneRepository.boardLanes w.store card.boardId :=
    mem_boardLanes.mpr ⟨h.1, h.2.2⟩
  have hsome : ((LaneRepository.boardLanes w.store card.boardId).find?
      fun l => l.id == card.laneId).isSome :=
    List.find?_isSome.mpr ⟨lane, hmem, by simp [h.2.1]⟩
  obtain ⟨found, hfound⟩ := Option.isSome_iff_exists.mp hsome
  have hid : found.id = card.laneId := by simpa using List.find?_some hfound
  have hin := (mem_boardLanes.mp (List.mem_of_find?_eq_some hfound)).1
  rw [hfound, lane_eq_of_id hin h.1 (hid.trans h.2.1.symm)]

end guards

section writing

/-- The rows name the same card, and refer to the same board, people and location. -/
structure SameReferences (card card' : Card) : Prop where
  id : card'.id = card.id
  boardId : card'.boardId = card.boardId
  reporterId : card'.reporterId = card.reporterId
  assigneeId : card'.assigneeId = card.assigneeId
  locationId : card'.locationId = card.locationId

theorem SameReferences.trans {card card' card'' : Card} (h : SameReferences card card')
    (h' : SameReferences card' card'') : SameReferences card card'' :=
  ⟨h'.id.trans h.id, h'.boardId.trans h.boardId, h'.reporterId.trans h.reporterId,
    h'.assigneeId.trans h.assigneeId, h'.locationId.trans h.locationId⟩

/-- Nothing stands against rewriting the row. -/
structure Writable (s : Store) (updated : Card) : Prop where
  found : ∃ row, s.cards.find? updated.id = some row
  accepted : s.cards.acceptsUpdate updated = true
  referred : HasTable.references s updated = true

theorem Writable.same {s s' : Store} {card card' row : Card} (h : Writable s card)
    (hsame : SameGuards s s') (hrefs : SameReferences card card') (hlane : card'.laneId = card.laneId)
    (hfound : s'.cards.find? card'.id = some row) (haccepted : s'.cards.acceptsUpdate card' = true) :
    Writable s' card' where
  found := ⟨row, hfound⟩
  accepted := haccepted
  referred := by
    have hreferred := h.referred
    have husers : s'.hasUser = s.hasUser := by
      funext id
      rw [Store.hasUser, Store.hasUser, hsame.users]
    simp only [HasTable.references, Store.hasBoard, husers] at hreferred ⊢
    rw [hsame.boards, hsame.lanes, hsame.locations, hrefs.boardId, hrefs.reporterId,
      hrefs.assigneeId, hrefs.locationId, hlane]
    exact hreferred

/-- No stored event has an id that is still to be drawn. -/
def FreshIds (w : World Store Tick) : Prop :=
  ∀ i, w.drawn ≤ i → ∀ e ∈ w.store.cardEvents.rows, e.id ≠ (w.inputs i).id

theorem FreshIds.of_drew {w w' : World Store Tick} (h : FreshIds w) (hdrew : Drew w w') :
    FreshIds w' := by
  intro i hi e he
  rw [hdrew.store] at he
  rw [hdrew.inputs]
  exact h i (hdrew.drawn.trans hi) e he

variable {w w' : World Store Tick} {updated : Card}

theorem writable_of_runs {actor : Actor} {card r : Card} {body : CardEventBody}
    (h : Runs (writeWithEvent actor card updated body) w r w') :
    Writable w.store updated := by
  simp only [writeWithEvent, CardRepository.update, runs_bind_iff, runs_updateRow_iff,
    table_cards] at h
  obtain ⟨_, _, ⟨hfound, haccepted, hreferred, -⟩, -⟩ := h
  exact ⟨hfound, haccepted, hreferred⟩

theorem runs_writeWithEvent_of (actor : Actor) (card : Card) (body : CardEventBody)
    (h : Writable w.store updated) (hid : updated.id = card.id) (hfresh : FreshIds w) :
    ∃ w', Runs (writeWithEvent actor card updated body) w updated w' := by
  simp only [writeWithEvent, CardRepository.update, EventRepository.append, runs_bind_iff,
    runs_updateRow_iff, runs_insertRow_iff, runs_makeEvent_iff, runs_pure_iff, table_cards,
    table_cardEvents, put_cards, put_cardEvents]
  refine ⟨_, (), _, ⟨h.found, h.accepted, h.referred, rfl⟩, _, _, ⟨rfl, rfl⟩, (), _,
    ⟨?_, ?_, rfl⟩, trivial, rfl⟩
  · refine List.all_eq_true.mpr fun e he => ?_
    have hclash : decide (w.peek.id = e.id) = false :=
      decide_eq_false (hfresh w.drawn le_rfl e he).symm
    exact congrArg not hclash
  · obtain ⟨row, hrow⟩ := h.found
    have hstored : (w.store.cards.update updated).find? card.id = some updated := by
      rw [Table.find?_update h.accepted, ← hid, hrow]
      exact if_pos rfl
    simp [HasTable.references, Store.hasCard, envelope, hstored]

end writing

/-- The card is in its lane as before, and so is all that the guards and the writes look at. -/
structure Returned (w w₁ : World Store Tick) (card card₁ : Card) : Prop where
  guards : SameGuards w.store w₁.store
  before : w.store.cards.find? card.id = some card
  found : w₁.store.cards.find? card.id = some card₁
  references : SameReferences card card₁
  laneId : card₁.laneId = card.laneId
  active : card₁.archivedAt = card.archivedAt
  others : ∀ c, c.id ≠ card.id → (c ∈ w₁.store.cards.rows ↔ c ∈ w.store.cards.rows)
  fresh : FreshIds w₁

theorem returned_of_rewritten {w w₁ w₂ : World Store Tick} {card moved back : Card}
    {events events' : List CardEvent} (haway : Rewritten w w₁ card moved events)
    (hback : Rewritten w₁ w₂ moved back events') (hrefs : SameReferences card back)
    (hlane : back.laneId = card.laneId) (hactive : back.archivedAt = card.archivedAt)
    (hfresh : FreshIds w₂) : Returned w w₂ card back where
  guards := haway.sameGuards.trans hback.sameGuards
  before := haway.found
  found := by
    rw [← show moved.id = card.id from haway.key]
    exact hback.find?_self
  references := hrefs
  laneId := hlane
  active := hactive
  others := by
    intro c hne
    have hmoved : moved.id = card.id := haway.key
    have hback' : c ≠ back := fun h => hne (h ▸ hrefs.id)
    have haway' : c ≠ moved := fun h => hne (h ▸ hmoved)
    rw [hback.mem_cards_iff, haway.mem_cards_iff, hmoved]
    tauto
  fresh := hfresh

section again

variable {w w' w₁ : World Store Tick} {actor : Actor} {card card₁ : Card}

theorem Returned.of_drew {w₂ : World Store Tick} (h : Returned w w₂ card card₁) (hdrew : Drew w w₁) :
    Returned w₁ w₂ card card₁ := by
  obtain ⟨hguards, hbefore, hfound, hrefs, hlane, hactive, hothers, hfresh⟩ := h
  rw [← hdrew.store] at hguards hbefore hothers
  exact ⟨hguards, hbefore, hfound, hrefs, hlane, hactive, hothers, hfresh⟩

theorem Returned.laneOf {lane : Lane} (h : Returned w w₁ card card₁) (hlane : LaneOf w.store card lane) :
    LaneOf w₁.store card₁ lane :=
  ⟨h.guards.lanes ▸ hlane.1, hlane.2.1.trans h.laneId.symm,
    hlane.2.2.trans h.references.boardId.symm⟩

theorem Returned.sameReferences {next next₁ : Card} (h : Returned w w₁ card card₁)
    (hrefs : SameReferences card next) (hrefs₁ : SameReferences card₁ next₁) :
    SameReferences next next₁ where
  id := hrefs₁.id.trans (h.references.id.trans hrefs.id.symm)
  boardId := hrefs₁.boardId.trans (h.references.boardId.trans hrefs.boardId.symm)
  reporterId := hrefs₁.reporterId.trans (h.references.reporterId.trans hrefs.reporterId.symm)
  assigneeId := hrefs₁.assigneeId.trans (h.references.assigneeId.trans hrefs.assigneeId.symm)
  locationId := hrefs₁.locationId.trans (h.references.locationId.trans hrefs.locationId.symm)

/-- The row can be rewritten where it stands. -/
theorem Returned.writable_in_place {next next₁ : Card} (h : Returned w w₁ card card₁)
    (hwritable : Writable w.store next) (hrefs : SameReferences card next)
    (hrefs₁ : SameReferences card₁ next₁) (hlane : next.laneId = card.laneId)
    (hlane₁ : next₁.laneId = card₁.laneId) (hposition : next₁.position = card₁.position) :
    Writable w₁.store next₁ := by
  have hid : next₁.id = card.id := hrefs₁.id.trans h.references.id
  refine hwritable.same h.guards (h.sameReferences hrefs hrefs₁) ?_ (hid ▸ h.found) ?_
  · exact hlane₁.trans (h.laneId.trans hlane.symm)
  · refine Table.acceptsUpdate_of_clash (Table.mem_of_find? h.found) hrefs₁.id fun c => ?_
    simp only [Row.clash, hrefs₁.id, hlane₁, hposition]

/-- The row can be written where it was written before. -/
theorem Returned.writable_there {next next₁ : Card} (h : Returned w w₁ card card₁)
    (hwritable : Writable w.store next) (hrefs : SameReferences card next)
    (hrefs₁ : SameReferences card₁ next₁) (hlane : next₁.laneId = next.laneId)
    (hposition : next₁.position = next.position) : Writable w₁.store next₁ := by
  have hsame := h.sameReferences hrefs hrefs₁
  have hid : next₁.id = card.id := hsame.id.trans hrefs.id
  refine hwritable.same h.guards hsame hlane (hid ▸ h.found) ?_
  refine List.all_eq_true.mpr fun c hc => ?_
  by_cases hne : c.id = card.id
  · have hkey : Row.key c = Row.key next₁ := hne.trans hid.symm
    simp [hkey]
  · have haccepted := List.all_eq_true.mp hwritable.accepted c ((h.others c hne).mp hc)
    have hkey : Row.key c ≠ Row.key next := fun hk => hne (hk.trans hrefs.id)
    have hclash : Row.clash next c = false := by simpa [hkey] using haccepted
    have hclash₁ : Row.clash next₁ c = Row.clash next c := by
      simp only [Row.clash, hsame.id, hlane, hposition]
    simp [hclash₁, hclash]

theorem Returned.accessible {found : Card} (hback : Returned w w₁ card card₁)
    (h : Runs (accessibleCard actor card.id) w found w') :
    found = card ∧ w' = w ∧ Runs (accessibleCard actor card.id) w₁ card₁ w₁ := by
  obtain ⟨rfl, hfound⟩ := runs_accessibleCard h
  obtain rfl := Option.some.inj (hfound.symm.trans hback.before)
  exact ⟨rfl, rfl, runs_accessibleCard_same h hback.guards hback.found hback.references.boardId⟩

theorem Returned.policy {policy : PolicyDocument} (hback : Returned w w₁ card card₁)
    (h : Runs (activePolicy card.boardId) w policy w') :
    w' = w ∧ Runs (activePolicy card₁.boardId) w₁ policy w₁ := by
  obtain rfl := runs_activePolicy h
  rw [hback.references.boardId]
  exact ⟨rfl, runs_activePolicy_same h hback.guards⟩

theorem Returned.lane {lane : Lane} (hback : Returned w w₁ card card₁)
    (h : Runs (laneOfCard card) w lane w') : w' = w ∧ Runs (laneOfCard card₁) w₁ lane w₁ := by
  obtain ⟨rfl, hlane⟩ := runs_laneOfCard h
  exact ⟨rfl, runs_laneOfCard_of (hback.laneOf hlane)⟩

theorem runs_archiveBody_again {input : VersionInput} (input' : VersionInput) {r : Card}
    (h : Runs (archiveBody actor card.id input) w r w') (hback : Returned w w₁ card card₁)
    (hversion : card₁.version = input'.expectedVersion) :
    ∃ r₁ w₂, Runs (archiveBody actor card.id input') w₁ r₁ w₂ := by
  simp only [archiveBody, archiveCard, runs_bind_iff, runs_ensureNotArchived_iff, runs_ensure_iff,
    runs_decidePolicy_iff, runs_ensureVersion_iff, runs_clockNow_iff] at h ⊢
  obtain ⟨found, _, hcard, _, _, ⟨hactive, rfl⟩, lane, _, hlane, _, _, ⟨hdone, rfl⟩, policy, _,
    hpolicy, _, _, ⟨hallowed, rfl⟩, _, _, ⟨-, rfl⟩, _, w₀, ⟨rfl, rfl⟩, hwrite⟩ := h
  obtain ⟨rfl, rfl, hcard₁⟩ := hback.accessible hcard
  obtain ⟨rfl, hlane₁⟩ := hback.lane hlane
  obtain ⟨rfl, hpolicy₁⟩ := hback.policy hpolicy
  have hwritable := writable_of_runs hwrite
  rw [World.tick_store] at hwritable
  have hwritable₁ : Writable w₁.store (archivedCard card₁ w₁.peek.now) :=
    hback.writable_in_place hwritable ⟨rfl, rfl, rfl, rfl, rfl⟩ ⟨rfl, rfl, rfl, rfl, rfl⟩ rfl rfl rfl
  obtain ⟨w₂, hwrite₁⟩ := runs_writeWithEvent_of (w := w₁.tick) actor card₁ .archived hwritable₁ rfl
    (hback.fresh.of_drew (.tick w₁))
  exact ⟨_, w₂, card₁, _, hcard₁, (), _, ⟨hback.active.trans hactive, rfl⟩, lane, _, hlane₁, (), _,
    ⟨hdone, rfl⟩, policy, _, hpolicy₁, (), _, ⟨hallowed, rfl⟩, (), _, ⟨hversion, rfl⟩, _, _,
    ⟨rfl, rfl⟩, hwrite₁⟩

theorem runs_setBlockedFlagBody_again {version : ℕ} (version' : ℕ) {reason : Option String} {r : Card}
    (h : Runs (setBlockedFlagBody actor card.id version reason) w r w')
    (hback : Returned w w₁ card card₁) (hversion : card₁.version = version')
    (hblocked : card₁.blocked = card.blocked) :
    ∃ r₁ w₂, Runs (setBlockedFlagBody actor card.id version' reason) w₁ r₁ w₂ := by
  simp only [setBlockedFlagBody, runs_bind_iff, runs_ensureNotArchived_iff, runs_ensure_iff,
    runs_decidePolicy_iff, runs_ensureVersion_iff, runs_clockNow_iff] at h ⊢
  obtain ⟨found, _, hcard, _, _, ⟨hactive, rfl⟩, policy, _, hpolicy, _, _, ⟨hallowed, rfl⟩, _, _,
    ⟨-, rfl⟩, _, _, ⟨hflag, rfl⟩, _, w₀, ⟨rfl, rfl⟩, hwrite⟩ := h
  obtain ⟨rfl, rfl, hcard₁⟩ := hback.accessible hcard
  obtain ⟨rfl, hpolicy₁⟩ := hback.policy hpolicy
  have hwritable := writable_of_runs hwrite
  rw [World.tick_store] at hwritable
  have hwritable₁ : Writable w₁.store (flaggedCard card₁ reason w₁.peek.now) :=
    hback.writable_in_place hwritable ⟨rfl, rfl, rfl, rfl, rfl⟩ ⟨rfl, rfl, rfl, rfl, rfl⟩ rfl rfl rfl
  obtain ⟨w₂, hwrite₁⟩ := runs_writeWithEvent_of (w := w₁.tick) actor card₁
    (if reason.isSome then .blocked reason else .unblocked none) hwritable₁ rfl
    (hback.fresh.of_drew (.tick w₁))
  exact ⟨_, w₂, card₁, _, hcard₁, (), _, ⟨hback.active.trans hactive, rfl⟩, policy, _, hpolicy₁, (), _,
    ⟨hallowed, rfl⟩, (), _, ⟨hversion, rfl⟩, (), _, ⟨hblocked ▸ hflag, rfl⟩, _, _, ⟨rfl, rfl⟩, hwrite₁⟩

/-- The cards of a lane the card is not in are as they were. -/
theorem Returned.laneRows (hback : Returned w w₁ card card₁) {laneId : Uuid}
    (hother : card.laneId ≠ laneId) :
    CardRepository.laneRows w₁.store laneId = CardRepository.laneRows w.store laneId := by
  have hrows : (CardRepository.laneRows w₁.store laneId).filter (fun _ => true) =
      CardRepository.laneRows w.store laneId := by
    refine laneRows_filter_eq laneRows_ascending fun c => ?_
    rw [mem_laneRows]
    by_cases hid : c.id = card.id
    · constructor
      · rintro ⟨hc, hlane⟩
        rw [Table.eq_of_key hc (Table.mem_of_find? hback.before) hid] at hlane
        exact absurd hlane hother
      · rintro ⟨hc, hlane, -⟩
        have hsame : c = card₁ := Table.eq_of_key hc (Table.mem_of_find? hback.found)
          (hid.trans hback.references.id.symm)
        rw [hsame, hback.laneId] at hlane
        exact absurd hlane hother
    · rw [hback.others c hid]
      simp
  simpa using hrows

variable [Platform]

theorem runs_cancelBody_again {input : CancelCardInput} (input' : CancelCardInput) {r : Card}
    (h : Runs (cancelBody actor card.id input) w r w') (hback : Returned w w₁ card card₁)
    (hversion : card₁.version = input'.expectedVersion) :
    ∃ r₁ w₂, Runs (cancelBody actor card.id input') w₁ r₁ w₂ := by
  simp only [cancelBody, runs_bind_iff, runs_ensureNotArchived_iff, runs_ensure_iff,
    runs_decidePolicy_iff, runs_ensureVersion_iff, runs_findByKey_iff, runs_require_iff,
    runs_clockNow_iff] at h ⊢
  obtain ⟨found, _, hcard, _, _, ⟨hactive, rfl⟩, lane, _, hlane, _, _, ⟨hopen, rfl⟩, policy, _,
    hpolicy, _, _, ⟨hallowed, rfl⟩, _, _, ⟨-, rfl⟩, _, _, ⟨rfl, rfl⟩, done, _, ⟨hdone, rfl⟩, bottom, _,
    hbottom, position, w₀, hposition, _, _, ⟨rfl, rfl⟩, hwrite⟩ := h
  obtain ⟨rfl, rfl, hcard₁⟩ := hback.accessible hcard
  obtain ⟨-, hof⟩ := runs_laneOfCard hlane
  obtain ⟨rfl, hlane₁⟩ := hback.lane hlane
  obtain ⟨rfl, hpolicy₁⟩ := hback.policy hpolicy
  obtain ⟨rfl, rfl⟩ := runs_read_iff.mp hbottom
  obtain ⟨hkey, rfl⟩ := runs_ofExcept_iff.mp hposition
  have hdone₁ : LaneRepository.laneWithKey w₁.store card₁.boardId doneKey = some done := by
    rw [LaneRepository.laneWithKey, hback.guards.lanes, hback.references.boardId]
    exact hdone
  obtain ⟨hmem, -, hdoneKey⟩ := laneWithKey_mem hdone
  have hother : found.laneId ≠ done.id := by
    intro hsame
    rw [lane_eq_of_id hof.1 hmem (hof.2.1.trans hsame), hdoneKey] at hopen
    exact absurd hopen (by decide)
  have hrows := hback.laneRows hother
  have hwritable := writable_of_runs hwrite
  rw [World.tick_store] at hwritable
  have hwritable₁ : Writable w₁.store
      (cancelledCard card₁ done position input'.resolution w₁.peek.now) :=
    hback.writable_there hwritable ⟨rfl, rfl, rfl, rfl, rfl⟩ ⟨rfl, rfl, rfl, rfl, rfl⟩ rfl rfl
  obtain ⟨w₂, hwrite₁⟩ := runs_writeWithEvent_of (w := w₁.tick) actor card₁
    (.cancelled (cancellationOf card₁ lane input'.resolution)) hwritable₁ rfl
    (hback.fresh.of_drew (.tick w₁))
  refine ⟨_, w₂, card₁, _, hcard₁, (), _, ⟨hback.active.trans hactive, rfl⟩, lane, _, hlane₁, (), _,
    ⟨hopen, rfl⟩, policy, _, hpolicy₁, (), _, ⟨hallowed, rfl⟩, (), _, ⟨hversion, rfl⟩, _, _,
    ⟨rfl, rfl⟩, done, _, ⟨hdone₁, rfl⟩, _, _, runs_read_iff.mpr ⟨rfl, rfl⟩, position, _,
    runs_ofExcept_iff.mpr ⟨?_, rfl⟩, _, _, ⟨rfl, rfl⟩, hwrite₁⟩
  rw [hrows]
  exact hkey

end again

/-- A body that succeeds at once is what the operation does. -/
theorem perform_of_runs {α : Type} {attempts : Attempts α} {w w' : World Store Tick} {a : α}
    (h : Runs attempts.first w a w') : attempts.perform w = (.ok a, w') := by
  have hfirst := transact_ok_iff.mpr h
  unfold Attempts.perform
  cases attempts.rest with
  | nil => exact hfirst
  | cons p rest => rw [attempt, hfirst]

end AiKanban.Effects
