import AiKanban.Services.CardService
import AiKanban.Application.Operations
import AiKanban.Effects.Edits

/-!
# What each mutation does to its card

`Change` lists the ways an accepted operation of the card service rewrites a card
that exists, with the checks that let it do so.
-/
namespace AiKanban.Effects

open Domain Db Policy Relational Services Services.CardService Transactions
open Application (CardOperation)

section reopening

/-- The cancellation a reopen restores from. -/
def storedCancellation (s : Store) (card : Card) : Option Cancellation :=
  if card.resolution = none ∨ card.resolution = some .completed then none
  else (EventRepository.latest s card.id [.cancelled]).head?.bind (·.body.cancellation?)

/-- The lane a reopen restores, when its key is still on the board. -/
def laneToRestore (s : Store) (card : Card) : Option Lane :=
  (priorLaneKey (storedCancellation s card)).bind (LaneRepository.laneWithKey s card.boardId)

/-- The lane a reopened card goes to. -/
def reopenLane (s : Store) (card : Card) : Option Lane :=
  ((laneToRestore s card).orElse fun _ => LaneRepository.laneWithKey s card.boardId "ready").orElse
    fun _ => entryLane s card.boardId

/-- Neither a lane to restore nor `ready` is there, so a reopen takes the entry lane. -/
def FallsBackToEntry (s : Store) (card : Card) : Prop :=
  laneToRestore s card = none ∧ LaneRepository.laneWithKey s card.boardId "ready" = none

theorem reopenLane_mem {s : Store} {card : Card} {lane : Lane} (h : reopenLane s card = some lane) :
    lane ∈ s.lanes.rows ∧ lane.boardId = card.boardId := by
  unfold reopenLane at h
  cases hr : laneToRestore s card with
  | some restored =>
    obtain ⟨key, -, hkey⟩ := Option.bind_eq_some_iff.mp hr
    simp only [hr, Option.orElse_some, Option.some.injEq] at h
    obtain ⟨hmem, hboard, -⟩ := laneWithKey_mem hkey
    exact h ▸ ⟨hmem, hboard⟩
  | none =>
    simp only [hr, Option.orElse_none] at h
    cases hready : LaneRepository.laneWithKey s card.boardId "ready" with
    | some ready =>
      simp only [hready, Option.orElse_some, Option.some.injEq] at h
      obtain ⟨hmem, hboard, -⟩ := laneWithKey_mem hready
      exact h ▸ ⟨hmem, hboard⟩
    | none =>
      simp only [hready, Option.orElse_none] at h
      exact entryLane_mem h

/-- Where a reopen leads, by the way it is chosen. -/
theorem reopenLane_cases {s : Store} {card : Card} {lane : Lane}
    (h : reopenLane s card = some lane) :
    (∃ payload, laneToRestore s card = some lane ∧ storedCancellation s card = some payload ∧
        lane.key = payload.fromLane ∧
        (payload.fromLane = waitingKey → payload.waitingReason ≠ none)) ∨
      laneToRestore s card = none ∧ lane.key = "ready" ∨
      FallsBackToEntry s card ∧ entryLane s card.boardId = some lane := by
  unfold reopenLane at h
  cases hr : laneToRestore s card with
  | some restored =>
    simp only [hr, Option.orElse_some, Option.some.injEq] at h
    subst h
    left
    obtain ⟨key, hprior, hkey⟩ := Option.bind_eq_some_iff.mp hr
    obtain ⟨payload, hpayload, hif⟩ := Option.bind_eq_some_iff.mp hprior
    split_ifs at hif with hcond
    cases hif
    refine ⟨payload, rfl, hpayload, (laneWithKey_mem hkey).2.2, fun hw hn => hcond ⟨hw, hn⟩⟩
  | none =>
    simp only [hr, Option.orElse_none] at h
    right
    cases hready : LaneRepository.laneWithKey s card.boardId "ready" with
    | some ready =>
      simp only [hready, Option.orElse_some, Option.some.injEq] at h
      subst h
      exact .inl ⟨rfl, (laneWithKey_mem hready).2.2⟩
    | none =>
      simp only [hready, Option.orElse_none] at h
      exact .inr ⟨⟨hr, hready⟩, h⟩

variable {w w' : World Store Tick} {card : Card}

@[simp] theorem runs_lastCancellation_iff {payload : Option Cancellation} :
    Runs (lastCancellation card) w payload w' ↔
      payload = storedCancellation w.store card ∧ w' = w := by
  simp only [lastCancellation, storedCancellation, EventRepository.latestByCard]
  split_ifs <;> simp [and_comm]

@[simp] theorem runs_restoredLane_iff {payload : Option Cancellation} {lane : Option Lane} :
    Runs (restoredLane card payload) w lane w' ↔
      lane = (priorLaneKey payload).bind (LaneRepository.laneWithKey w.store card.boardId) ∧
        w' = w := by
  unfold restoredLane
  cases priorLaneKey payload <;> simp

@[simp] theorem runs_reopenTarget_iff {restored : Option Lane} {lane : Lane} :
    Runs (reopenTarget card restored) w lane w' ↔
      (restored.orElse fun _ => LaneRepository.laneWithKey w.store card.boardId "ready").orElse
        (fun _ => entryLane w.store card.boardId) = some lane ∧ w' = w := by
  unfold reopenTarget
  cases restored with
  | some restored => simp [eq_comm]
  | none =>
    cases hready : LaneRepository.laneWithKey w.store card.boardId "ready" <;>
      simp [hready, eq_comm]

end reopening
/-- What a move into the waiting lane is given, and no other move. -/
def EntryFields (input : MoveCardInput) (toLane : Lane) (fields : Option WaitingLaneEntry) : Prop :=
  toLane.key = waitingKey ∧ (∃ entry, fields = some entry ∧
      WaitingLaneEntry.parse input.waitingReason input.expectedResumeAt = .ok entry) ∨
    toLane.key ≠ waitingKey ∧ fields = none

/-- The ways an accepted operation rewrites a card: the row before, the row after and the
bodies of its events. -/
inductive Change [Platform] (s s' : Store) :
    CardOperation → Card → Card → List CardEventBody → Prop where
  | edited {deps : CardServiceDeps} {actor : Actor} {cardId : ℕ} {raw input : UpdateCardInput}
      {card : Card} {tagChange : List FieldChange} {updatedAt : Instant}
      (parsed : raw.parse = .ok input) (found : s.cards.find? cardId = some card)
      (active : card.archivedAt = none) (version : card.version = input.expectedVersion)
      (allowed : WaitingEditAllowed s card input) (tags : TagEdit s s' card.id tagChange)
      (nonempty : changes card input tagChange ≠ []) :
      Change s s' (.update deps actor cardId raw) card (editedCard card input updatedAt)
        ((changes card input tagChange).map .fieldChanged)
  | reordered {actor : Actor} {cardId : ℕ} {raw input : MoveCardInput} {card : Card} {lane : Lane}
      {position : String} {updatedAt : Instant}
      (parsed : raw.parse = .ok input) (found : s.cards.find? cardId = some card)
      (active : card.archivedAt = none) (version : card.version = input.expectedVersion)
      (lane_of : LaneOf s card lane) (tags : TagEdit s s' card.id []) :
      Change s s' (.move actor cardId raw) card (placedCard card lane position updatedAt)
        [.reordered lane.key input.prevCardId input.nextCardId]
  | moved {actor : Actor} {cardId : ℕ} {raw input : MoveCardInput} {card : Card}
      {fromLane toLane : Lane} {fields : Option WaitingLaneEntry} {position : String}
      {updatedAt startedAt : Instant} {wipLimitExceeded : Bool}
      (parsed : raw.parse = .ok input) (found : s.cards.find? cardId = some card)
      (active : card.archivedAt = none) (version : card.version = input.expectedVersion)
      (from_lane : LaneOf s card fromLane)
      (to_lane : LaneRepository.laneWithKey s card.boardId input.toLane = some toLane)
      (other : toLane.id ≠ fromLane.id) (entry : EntryFields input toLane fields)
      (tags : TagEdit s s' card.id []) :
      Change s s' (.move actor cardId raw) card
        (crossLane card (placedCard card toLane position updatedAt) fromLane toLane fields startedAt)
        [.statusChanged ⟨fromLane.key, toLane.key, wipLimitExceeded,
          decide (fromLane.key = waitingKey)⟩]
  | cancelled {actor : Actor} {cardId : ℕ} {raw input : CancelCardInput} {card : Card}
      {fromLane done : Lane} {position : String} {updatedAt : Instant}
      (parsed : raw.parse = .ok input) (found : s.cards.find? cardId = some card)
      (active : card.archivedAt = none) (version : card.version = input.expectedVersion)
      (from_lane : LaneOf s card fromLane) (open' : fromLane.key ≠ doneKey)
      (to_lane : LaneRepository.laneWithKey s card.boardId doneKey = some done)
      (tags : TagEdit s s' card.id []) :
      Change s s' (.cancel actor cardId raw) card
        (cancelledCard card done position input.resolution updatedAt)
        [.cancelled (cancellationOf card fromLane input.resolution)]
  | reopened {actor : Actor} {cardId : ℕ} {raw input : VersionInput} {card : Card}
      {fromLane target : Lane} {position : String} {updatedAt : Instant}
      (parsed : raw.parse = .ok input) (found : s.cards.find? cardId = some card)
      (version : card.version = input.expectedVersion) (from_lane : LaneOf s card fromLane)
      (done : fromLane.key = doneKey) (to_lane : reopenLane s card = some target)
      (tags : TagEdit s s' card.id []) :
      Change s s' (.reopen actor cardId raw) card
        (reopenedCard card (storedCancellation s card) (laneToRestore s card) target position updatedAt)
        [.reopened target.key]
  | archived {actor : Actor} {cardId : ℕ} {raw input : VersionInput} {card : Card} {lane : Lane}
      {nowIso : Instant}
      (parsed : raw.parse = .ok input) (found : s.cards.find? cardId = some card)
      (active : card.archivedAt = none) (version : card.version = input.expectedVersion)
      (lane_of : LaneOf s card lane) (done : lane.key = doneKey) (tags : TagEdit s s' card.id []) :
      Change s s' (.archive actor cardId raw) card (archivedCard card nowIso) [.archived]
  | expired {actor : Actor} {card : Card} {lane : Lane} {nowIso : Instant}
      (found : s.cards.find? card.id = some card) (active : card.archivedAt = none)
      (lane_mem : lane ∈ s.lanes.rows) (lane_id : lane.id = card.laneId) (done : lane.key = doneKey)
      (tags : TagEdit s s' card.id []) :
      Change s s' (.archiveExpired actor) card (archivedCard card nowIso) [.archived]
  | blocked {actor : Actor} {cardId : ℕ} {raw input : BlockCardInput} {card : Card}
      {nowIso : Instant}
      (parsed : raw.parse = .ok input) (found : s.cards.find? cardId = some card)
      (active : card.archivedAt = none) (version : card.version = input.expectedVersion)
      (unflagged : card.blocked = false) (tags : TagEdit s s' card.id []) :
      Change s s' (.block actor cardId raw) card (flaggedCard card (some input.reason) nowIso)
        [.blocked (some input.reason)]
  | unblocked {actor : Actor} {cardId : ℕ} {raw input : VersionInput} {card : Card}
      {nowIso : Instant}
      (parsed : raw.parse = .ok input) (found : s.cards.find? cardId = some card)
      (active : card.archivedAt = none) (version : card.version = input.expectedVersion)
      (flagged : card.blocked = true) (tags : TagEdit s s' card.id []) :
      Change s s' (.unblock actor cardId raw) card (flaggedCard card none nowIso) [.unblocked none]

/-- Only an edit touches tags, and only those of its card. -/
theorem Change.tagEdit [Platform] {s s' : Store} {op : CardOperation} {card next : Card}
    {bodies : List CardEventBody} (h : Change s s' op card next bodies) :
    ∃ change, TagEdit s s' card.id change := by
  cases h with
  | edited _ _ _ _ _ htags _ => exact ⟨_, htags⟩
  | reordered _ _ _ _ _ htags => exact ⟨_, htags⟩
  | moved _ _ _ _ _ _ _ _ htags => exact ⟨_, htags⟩
  | cancelled _ _ _ _ _ _ _ htags => exact ⟨_, htags⟩
  | reopened _ _ _ _ _ _ htags => exact ⟨_, htags⟩
  | archived _ _ _ _ _ _ htags => exact ⟨_, htags⟩
  | expired _ _ _ _ _ htags => exact ⟨_, htags⟩
  | blocked _ _ _ _ _ htags => exact ⟨_, htags⟩
  | unblocked _ _ _ _ _ htags => exact ⟨_, htags⟩

/-- A unit of work of the operation rewrote a card in one of these ways. -/
structure Changed [Platform] (op : CardOperation) (w w' : World Store Tick) (card next : Card)
    (events : List CardEvent) : Prop where
  change : Change w.store w'.store op card next (events.map (·.body))
  rewritten : Rewritten w w' card next events

/-- Crossing lanes keeps what the placed row says of everything but the waiting fields, the
resolution and the start of work. -/
theorem crossLane_frame (card placed : Card) (fromLane toLane : Lane)
    (fields : Option WaitingLaneEntry) (startedAt : Instant) :
    ∃ reason day alerted resolution started,
      crossLane card placed fromLane toLane fields startedAt = { placed with
        waitingReason := reason
        expectedResumeAt := day
        resumeAlertedAt := alerted
        resolution := resolution
        workStartedAt := started } := by
  unfold crossLane
  cases fields <;> split_ifs <;> exact ⟨_, _, _, _, _, rfl⟩

theorem crossLane_id (card placed : Card) (fromLane toLane : Lane)
    (fields : Option WaitingLaneEntry) (startedAt : Instant) :
    (crossLane card placed fromLane toLane fields startedAt).id = placed.id := by
  obtain ⟨_, _, _, _, _, h⟩ := crossLane_frame card placed fromLane toLane fields startedAt
  rw [h]

/-- What crossing lanes makes of the resolution. -/
theorem resolution_crossLane (card placed : Card) (fromLane toLane : Lane)
    (fields : Option WaitingLaneEntry) (startedAt : Instant) :
    (crossLane card placed fromLane toLane fields startedAt).resolution =
      if fromLane.key = doneKey then none
      else if toLane.key = doneKey then some .completed else placed.resolution := by
  unfold crossLane
  cases fields <;> split_ifs <;> rfl

/-- What crossing lanes makes of the waiting fields. -/
theorem waiting_crossLane (card placed : Card) (fromLane toLane : Lane)
    (fields : Option WaitingLaneEntry) (startedAt : Instant) :
    (crossLane card placed fromLane toLane fields startedAt).waitingReason =
        (if fromLane.key = waitingKey then none
        else (fields.map (·.waitingReason)).or placed.waitingReason) ∧
      (crossLane card placed fromLane toLane fields startedAt).expectedResumeAt =
        (if fromLane.key = waitingKey then none
        else (fields.map (·.expectedResumeAt)).or placed.expectedResumeAt) := by
  unfold crossLane
  cases fields <;> split_ifs <;> exact ⟨rfl, rfl⟩

/-- Every rewrite moves the version on. -/
theorem Change.version [Platform] {s s' : Store} {op : CardOperation} {card next : Card}
    {bodies : List CardEventBody} (h : Change s s' op card next bodies) :
    next.version = card.version + 1 := by
  cases h with
  | @moved _ _ _ _ _ fromLane toLane fields position updatedAt startedAt =>
    obtain ⟨_, _, _, _, _, h⟩ := crossLane_frame card (placedCard card toLane position updatedAt)
      fromLane toLane fields startedAt
    rw [h]
    rfl
  | _ => rfl

/-- Every rewrite records something. -/
theorem Change.bodies_ne_nil [Platform] {s s' : Store} {op : CardOperation} {card next : Card}
    {bodies : List CardEventBody} (h : Change s s' op card next bodies) : bodies ≠ [] := by
  cases h with
  | edited _ _ _ _ _ _ hnonempty => simpa using hnonempty
  | _ => simp

section specs

variable {w w' : World Store Tick} {card : Card}

theorem readsOnly_readNeighbor (card : Card) (toLane : Lane) (neighbor : Option ℕ) :
    (readNeighbor card toLane neighbor).ReadsOnly := by
  cases neighbor with
  | none => exact Program.readsOnly_pure _
  | some id =>
    exact (Program.readsOnly_read _).bind fun _ => (Program.readsOnly_require _ _).bind fun _ =>
      (Program.readsOnly_ensure _ _).bind fun _ => Program.readsOnly_pure _

theorem readsOnly_edgeOfLane (laneId : Uuid) (edge : CardRepository.Edge) :
    (CardRepository.edgeOfLane laneId edge).ReadsOnly := by
  cases edge <;> exact Program.readsOnly_read _

theorem runs_ensureReopenAllowed {actor : Actor} {policy : PolicyDocument} {fromLane toLane : Lane}
    {u : Unit} (h : Runs (ensureReopenAllowed actor policy fromLane toLane) w u w') : w' = w := by
  refine h.of_readsOnly ?_
  unfold ensureReopenAllowed
  split_ifs
  · exact readsOnly_decidePolicy _
  · exact Program.readsOnly_pure _

theorem runs_waitingEntry {policy : PolicyDocument} {fromLane toLane : Lane} {input : MoveCardInput}
    {fields : Option WaitingLaneEntry}
    (h : Runs (waitingEntry card policy fromLane toLane input) w fields w')
    (hne : toLane.id ≠ fromLane.id) : EntryFields input toLane fields := by
  simp only [waitingEntry, ensureActiveWaitingReason, runs_ite_iff, runs_bind_iff,
    runs_ofExcept_iff, runs_ensure_iff, runs_pure_iff] at h
  rcases h with ⟨⟨-, hkey⟩, entry, _, ⟨hparse, -⟩, _, _, -, rfl, -⟩ | ⟨hother, rfl, -⟩
  · exact .inl ⟨hkey, entry, rfl, hparse⟩
  · exact .inr ⟨fun hkey => hother ⟨hne, hkey⟩, rfl⟩

theorem readsOnly_waitingEntry (card : Card) (policy : PolicyDocument) (fromLane toLane : Lane)
    (input : MoveCardInput) : (waitingEntry card policy fromLane toLane input).ReadsOnly := by
  unfold waitingEntry
  split_ifs
  · exact (Program.readsOnly_ofExcept _).bind fun _ =>
      (readsOnly_ensureActiveWaitingReason _ _ _).bind fun _ => Program.readsOnly_pure _
  · exact Program.readsOnly_pure _

/-- What a move makes of the placed row, and what it records. -/
theorem runs_moved {placed : Card} {fromLane toLane : Lane} {input : MoveCardInput}
    {fields : Option WaitingLaneEntry} {result : Card × CardEventBody}
    (h : Runs (moved card placed fromLane toLane input fields) w result w') :
    Drew w w' ∧
      (toLane.id = fromLane.id ∧
          result = (placed, .reordered toLane.key input.prevCardId input.nextCardId) ∨
        toLane.id ≠ fromLane.id ∧ ∃ startedAt wipLimitExceeded,
          result = (crossLane card placed fromLane toLane fields startedAt,
            .statusChanged ⟨fromLane.key, toLane.key, wipLimitExceeded,
              decide (fromLane.key = waitingKey)⟩)) := by
  simp only [moved, runs_ite_iff, runs_pure_iff, runs_bind_iff] at h
  rcases h with ⟨hsame, rfl, rfl⟩ | ⟨hother, startedAt, w₁, hstart, exceeded, w₂, hwip, rfl, rfl⟩
  · exact ⟨.refl _, .inl ⟨hsame, rfl⟩⟩
  · have hdrew : Drew w w₁ := by
      simp only [workStart, runs_ite_iff, runs_clockNow_iff, runs_pure_iff] at hstart
      rcases hstart with ⟨-, -, rfl⟩ | ⟨-, -, rfl⟩
      · exact .tick w
      · exact .refl _
    have hread : w' = w₁ := by
      refine hwip.of_readsOnly ?_
      unfold exceedsWipLimit
      cases toLane.wipLimit with
      | none => exact Program.readsOnly_pure _
      | some limit => exact (Program.readsOnly_read _).bind fun _ => Program.readsOnly_pure _
    exact ⟨hread ▸ hdrew, .inr ⟨hother, startedAt, exceeded, rfl⟩⟩

/-- A flag is set only on an unflagged card and cleared only on a flagged one. -/
theorem runs_setBlockedFlagBody {actor : Actor} {cardId expectedVersion : ℕ}
    {reason : Option String} {r : Card}
    (h : Runs (setBlockedFlagBody actor cardId expectedVersion reason) w r w') :
    ∃ card event nowIso, r = flaggedCard card reason nowIso ∧
      w.store.cards.find? cardId = some card ∧ card.archivedAt = none ∧
      card.version = expectedVersion ∧ card.blocked ≠ reason.isSome ∧
      event.body = (if reason.isSome then .blocked reason else .unblocked none) ∧
      Rewritten w w' card r [event] ∧ TagEdit w.store w'.store card.id [] := by
  simp only [setBlockedFlagBody, runs_bind_iff, runs_ensureNotArchived_iff, runs_decidePolicy_iff,
    runs_ensureVersion_iff, runs_ensure_iff, runs_clockNow_iff] at h
  obtain ⟨card, _, hcard, _, _, ⟨hactive, rfl⟩, policy, _, hpolicy, _, _, ⟨-, rfl⟩, _, _,
    ⟨hversion, rfl⟩, _, w₀, ⟨hflag, rfl⟩, _, _, ⟨rfl, rfl⟩, hwrite⟩ := h
  obtain ⟨rfl, hfound⟩ := runs_accessibleCard hcard
  obtain rfl := runs_activePolicy hpolicy
  have hid : card.id = cardId := Table.find?_key hfound
  obtain ⟨rfl, event, hbody, hrewritten, htags, hcardTags⟩ :=
    runs_writeWithEvent hwrite (.tick w₀) (by rwa [hid]) rfl
  exact ⟨card, event, _, rfl, hfound, hactive, hversion, by simpa using hflag, hbody, hrewritten,
    .of_same htags hcardTags⟩

variable [Platform]

theorem readsOnly_keyBetween (prev next : Option String) (card : Card) :
    (keyBetween prev next card).ReadsOnly := by
  unfold keyBetween
  cases Platform.generateKeyBetween prev next <;> trivial

theorem readsOnly_targetPosition (card : Card) (toLane : Lane) (input : MoveCardInput) :
    (targetPosition card toLane input).ReadsOnly :=
  (readsOnly_readNeighbor _ _ _).bind fun _ => (readsOnly_readNeighbor _ _ _).bind fun _ =>
    (readsOnly_keyBetween _ _ _).bind fun _ => (Program.readsOnly_read _).bind fun _ =>
      readsOnly_keyBetween _ _ _

theorem readsOnly_generateKeyBetween (prev next : Option String) :
    (CardService.generateKeyBetween prev next).ReadsOnly :=
  Program.readsOnly_ofExcept _

/-- An accepted move reorders the card in its lane or takes it to another one. -/
theorem runs_moveBody {actor : Actor} {cardId : ℕ} {raw input : MoveCardInput} {r : Card}
    (hparse : raw.parse = .ok input) (h : Runs (moveBody actor cardId input) w r w') :
    ∃ card event, Changed (.move actor cardId raw) w w' card r [event] := by
  simp only [moveBody, runs_bind_iff, runs_ensureNotArchived_iff, runs_laneByKey_iff,
    runs_decidePolicy_iff, runs_ensureVersion_iff, runs_clockNow_iff] at h
  obtain ⟨card, _, hcard, _, _, ⟨hactive, rfl⟩, fromLane, _, hfrom, toLane, _, ⟨hto, rfl⟩, policy,
    _, hpolicy, _, _, ⟨-, rfl⟩, _, _, hgate, _, _, ⟨hversion, rfl⟩, fields, _, hfields, position,
    w₀, hposition, _, _, ⟨rfl, rfl⟩, ⟨updated, body⟩, w₁, hmoved, hwrite⟩ := h
  obtain ⟨rfl, hfound⟩ := runs_accessibleCard hcard
  obtain ⟨rfl, hlane⟩ := runs_laneOfCard hfrom
  obtain rfl := runs_activePolicy hpolicy
  obtain rfl := runs_ensureReopenAllowed hgate
  have hentry := runs_waitingEntry hfields
  obtain rfl := hfields.of_readsOnly (readsOnly_waitingEntry _ _ _ _ _)
  obtain rfl := hposition.of_readsOnly (readsOnly_targetPosition _ _ _)
  obtain ⟨hdrew, hcases⟩ := runs_moved hmoved
  have hid : card.id = cardId := Table.find?_key hfound
  have hfound' : w₀.store.cards.find? card.id = some card := by rwa [hid]
  have hdrew' := (Drew.tick w₀).trans hdrew
  rcases hcases with ⟨hsame, hresult⟩ | ⟨hother, startedAt, exceeded, hresult⟩
  · cases hresult
    obtain ⟨rfl, event, hbody, hrewritten, htags, hcardTags⟩ :=
      runs_writeWithEvent hwrite hdrew' hfound' rfl
    have heq : toLane = fromLane :=
      lane_eq_of_id (laneWithKey_mem hto).1 hlane.1 hsame
    refine ⟨card, event, ⟨?_, hrewritten⟩⟩
    rw [List.map_singleton, hbody, heq]
    exact .reordered hparse hfound hactive hversion hlane (.of_same htags hcardTags)
  · cases hresult
    obtain ⟨rfl, event, hbody, hrewritten, htags, hcardTags⟩ :=
      runs_writeWithEvent hwrite hdrew' hfound' (crossLane_id _ _ _ _ _ _)
    refine ⟨card, event, ⟨?_, hrewritten⟩⟩
    rw [List.map_singleton, hbody]
    exact .moved hparse hfound hactive hversion hlane hto hother (hentry hother)
      (.of_same htags hcardTags)

theorem runs_cancelBody {actor : Actor} {cardId : ℕ} {raw input : CancelCardInput} {r : Card}
    (hparse : raw.parse = .ok input) (h : Runs (cancelBody actor cardId input) w r w') :
    ∃ card event, Changed (.cancel actor cardId raw) w w' card r [event] := by
  simp only [cancelBody, runs_bind_iff, runs_ensureNotArchived_iff, runs_ensure_iff,
    runs_decidePolicy_iff, runs_ensureVersion_iff, runs_findByKey_iff, runs_require_iff,
    runs_clockNow_iff] at h
  obtain ⟨card, _, hcard, _, _, ⟨hactive, rfl⟩, fromLane, _, hfrom, _, _, ⟨hopen, rfl⟩, policy, _,
    hpolicy, _, _, ⟨-, rfl⟩, _, _, ⟨hversion, rfl⟩, _, _, ⟨rfl, rfl⟩, done, _, ⟨hdone, rfl⟩, bottom,
    _, hbottom, position, w₀, hposition, _, _, ⟨rfl, rfl⟩, hwrite⟩ := h
  obtain ⟨rfl, hfound⟩ := runs_accessibleCard hcard
  obtain ⟨rfl, hlane⟩ := runs_laneOfCard hfrom
  obtain rfl := runs_activePolicy hpolicy
  obtain rfl := hbottom.of_readsOnly (readsOnly_edgeOfLane _ _)
  obtain rfl := hposition.of_readsOnly (readsOnly_generateKeyBetween _ _)
  have hid : card.id = cardId := Table.find?_key hfound
  obtain ⟨rfl, event, hbody, hrewritten, htags, hcardTags⟩ :=
    runs_writeWithEvent hwrite (.tick w₀) (by rwa [hid]) rfl
  refine ⟨card, event, ⟨?_, hrewritten⟩⟩
  rw [List.map_singleton, hbody]
  exact .cancelled hparse hfound hactive hversion hlane (by simpa using hopen) hdone
    (.of_same htags hcardTags)

theorem runs_reopenBody {actor : Actor} {cardId : ℕ} {raw input : VersionInput} {r : Card}
    (hparse : raw.parse = .ok input) (h : Runs (reopenBody actor cardId input) w r w') :
    ∃ card event, Changed (.reopen actor cardId raw) w w' card r [event] := by
  simp only [reopenBody, runs_bind_iff, runs_ensure_iff, runs_decidePolicy_iff,
    runs_ensureVersion_iff, runs_lastCancellation_iff, runs_restoredLane_iff,
    runs_reopenTarget_iff, runs_clockNow_iff] at h
  obtain ⟨card, _, hcard, fromLane, _, hfrom, _, _, ⟨hdone, rfl⟩, policy, _, hpolicy, _, _,
    ⟨-, rfl⟩, _, _, ⟨hversion, rfl⟩, _, _, ⟨rfl, rfl⟩, _, _, ⟨rfl, rfl⟩, target, _, ⟨htarget, rfl⟩,
    bottom, _, hbottom, position, w₀, hposition, _, _, ⟨rfl, rfl⟩, hwrite⟩ := h
  obtain ⟨rfl, hfound⟩ := runs_accessibleCard hcard
  obtain ⟨rfl, hlane⟩ := runs_laneOfCard hfrom
  obtain rfl := runs_activePolicy hpolicy
  obtain rfl := hbottom.of_readsOnly (readsOnly_edgeOfLane _ _)
  obtain rfl := hposition.of_readsOnly (readsOnly_generateKeyBetween _ _)
  have hid : card.id = cardId := Table.find?_key hfound
  obtain ⟨rfl, event, hbody, hrewritten, htags, hcardTags⟩ :=
    runs_writeWithEvent hwrite (.tick w₀) (by rwa [hid]) rfl
  refine ⟨card, event, ⟨?_, hrewritten⟩⟩
  rw [List.map_singleton, hbody]
  exact .reopened hparse hfound hversion hlane (by simpa using hdone) htarget
    (.of_same htags hcardTags)

theorem runs_archiveBody {actor : Actor} {cardId : ℕ} {raw input : VersionInput} {r : Card}
    (hparse : raw.parse = .ok input) (h : Runs (archiveBody actor cardId input) w r w') :
    ∃ card event, Changed (.archive actor cardId raw) w w' card r [event] := by
  simp only [archiveBody, archiveCard, runs_bind_iff, runs_ensureNotArchived_iff, runs_ensure_iff,
    runs_decidePolicy_iff, runs_ensureVersion_iff, runs_clockNow_iff] at h
  obtain ⟨card, _, hcard, _, _, ⟨hactive, rfl⟩, lane, _, hlane, _, _, ⟨hdone, rfl⟩, policy, _,
    hpolicy, _, _, ⟨-, rfl⟩, _, w₀, ⟨hversion, rfl⟩, _, _, ⟨rfl, rfl⟩, hwrite⟩ := h
  obtain ⟨rfl, hfound⟩ := runs_accessibleCard hcard
  obtain ⟨rfl, hof⟩ := runs_laneOfCard hlane
  obtain rfl := runs_activePolicy hpolicy
  have hid : card.id = cardId := Table.find?_key hfound
  obtain ⟨rfl, event, hbody, hrewritten, htags, hcardTags⟩ :=
    runs_writeWithEvent hwrite (.tick w₀) (by rwa [hid]) rfl
  refine ⟨card, event, ⟨?_, hrewritten⟩⟩
  rw [List.map_singleton, hbody]
  exact .archived hparse hfound hactive hversion hof (by simpa using hdone)
    (.of_same htags hcardTags)

theorem runs_blockBody {actor : Actor} {cardId : ℕ} {raw input : BlockCardInput} {r : Card}
    (hparse : raw.parse = .ok input)
    (h : Runs (setBlockedFlagBody actor cardId input.expectedVersion (some input.reason)) w r w') :
    ∃ card event, Changed (.block actor cardId raw) w w' card r [event] := by
  obtain ⟨card, event, nowIso, rfl, hfound, hactive, hversion, hflag, hbody, hrewritten, htags⟩ :=
    runs_setBlockedFlagBody h
  refine ⟨card, event, ?_, hrewritten⟩
  rw [List.map_singleton, hbody]
  exact .blocked hparse hfound hactive hversion (by simpa using hflag) htags

theorem runs_unblockBody {actor : Actor} {cardId : ℕ} {raw input : VersionInput} {r : Card}
    (hparse : raw.parse = .ok input)
    (h : Runs (setBlockedFlagBody actor cardId input.expectedVersion none) w r w') :
    ∃ card event, Changed (.unblock actor cardId raw) w w' card r [event] := by
  obtain ⟨card, event, nowIso, rfl, hfound, hactive, hversion, hflag, hbody, hrewritten, htags⟩ :=
    runs_setBlockedFlagBody h
  refine ⟨card, event, ?_, hrewritten⟩
  rw [List.map_singleton, hbody]
  exact .unblocked hparse hfound hactive hversion (by simpa using hflag) htags

end specs
end AiKanban.Effects
