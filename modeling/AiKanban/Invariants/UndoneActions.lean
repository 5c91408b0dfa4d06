import AiKanban.Effects.Acceptance
import AiKanban.Invariants.UndoneMoves
import AiKanban.Invariants.WaitingTrail
import AiKanban.Web.ActionEntries

/-!
# Undoing an action

The recorded inverses are commands with rules of their own. A block and an unblock undo each other;
a reopen undoes a cancellation, but of an archived card it clears the resolution.
-/
namespace AiKanban.Invariants

open Domain Db Relational Services Services.CardService Transactions Effects Web
open Application

/-- The command of an action, for the card of the version. -/
def commandOf (actor : Actor) (cardId version : ℕ) : CardAction → CardOperation
  | .cancel resolution => .cancel actor cardId ⟨resolution, version⟩
  | .reopen => .reopen actor cardId ⟨version⟩
  | .archive => .archive actor cardId ⟨version⟩
  | .block reason => .block actor cardId ⟨reason, version⟩
  | .unblock => .unblock actor cardId ⟨version⟩

/-- What the actions change of a card. -/
structure ActionFields where
  lane : Option LaneKey
  resolution : Option Resolution
  archived : Bool
  blocked : Bool
  blockedReason : Option String
  waitingReason : Option WaitingReason
  expectedResumeAt : Option Day
deriving DecidableEq

def fieldsOf (s : Store) (card : Card) : ActionFields where
  lane := (s.lanes.find? card.laneId).map (·.key)
  resolution := card.resolution
  archived := card.archivedAt.isSome
  blocked := card.blocked
  blockedReason := card.blockedReason
  waitingReason := card.waitingReason
  expectedResumeAt := card.expectedResumeAt

/-- What an action makes of them. -/
def ActionFields.after (fields : ActionFields) : UndoableActionArgs → ActionFields
  | .cancel resolution => { fields with
      lane := some doneKey
      resolution := some resolution.toResolution
      waitingReason := none
      expectedResumeAt := none }
  | .archive => { fields with archived := true }
  | .block reason => { fields with blocked := true, blockedReason := some (trim reason) }
  | .unblock => { fields with blocked := false, blockedReason := none }

def versionOf (s : Store) (cardId : ℕ) : ℕ := (s.cards.find? cardId).elim 0 (·.version)

/-- An action sent for the card as it is stored. -/
def sent (s : Store) (actor : Actor) (cardId : ℕ) (action : CardAction) : Operation :=
  .card (commandOf actor cardId (versionOf s cardId) action)

def storedFields (s : Store) (cardId : ℕ) : Option ActionFields :=
  (s.cards.find? cardId).map (fieldsOf s)

/-- The undo took the card back, and the redo is accepted and does what the action did. -/
structure UndoneAndRedone [Platform] (w w₁ w₂ : World Store Tick) (actor : Actor) (cardId : ℕ)
    (redo : CardAction) : Prop where
  undone : storedFields w₂.store cardId = storedFields w.store cardId
  accepted : ∃ result, ((sent w₂.store actor cardId redo).perform w₂).1 = .ok result
  redone : storedFields (step w₂ (sent w₂.store actor cardId redo)).store cardId =
    storedFields w₁.store cardId

/-- A reopen finds no lane but the entry lane, and that has the key. -/
def EntersAt (s : Store) (boardId : Uuid) (key : LaneKey) : Prop :=
  LaneRepository.laneWithKey s boardId "ready" = none ∧
    ∃ entry, entryLane s boardId = some entry ∧ entry.key = key

/-- The reopen of what the action makes of the card takes it back. -/
def Undoable (s : Store) (card : Card) (lane : Lane) : UndoableActionArgs → Prop
  | .cancel _ => lane.key = waitingKey → card.waitingReason = none →
      card.expectedResumeAt = none ∧ EntersAt s card.boardId waitingKey
  | .archive => card.resolution = none ∧ EntersAt s card.boardId doneKey
  | .block _ => True
  | .unblock => True

section inputs

/-- A version as the input schemas let it through. -/
def ValidVersion (version : ℕ) : Prop := 1 ≤ version ∧ version ≤ 9007199254740991

theorem cancel_parse_iff {raw input : CancelCardInput} :
    raw.parse = .ok input ↔ ValidVersion raw.expectedVersion ∧ input = raw := by
  constructor
  · intro h
    obtain ⟨_, hversion, h⟩ := ok_of_bind h
    exact ⟨integerAtLeast_ok_iff.mp hversion, (Except.ok.inj h).symm⟩
  · rintro ⟨hversion, rfl⟩
    exact bind_of_ok (integerAtLeast_ok_iff.mpr hversion)

theorem version_parse_iff {raw input : VersionInput} :
    raw.parse = .ok input ↔ ValidVersion raw.expectedVersion ∧ input = raw := by
  constructor
  · intro h
    obtain ⟨_, hversion, h⟩ := ok_of_bind h
    exact ⟨integerAtLeast_ok_iff.mp hversion, (Except.ok.inj h).symm⟩
  · rintro ⟨hversion, rfl⟩
    exact bind_of_ok (integerAtLeast_ok_iff.mpr hversion)

theorem block_parse_iff {raw input : BlockCardInput} :
    raw.parse = .ok input ↔ boundedText ["reason"] 1 500 (trim raw.reason) = .ok () ∧
      ValidVersion raw.expectedVersion ∧ input = { raw with reason := trim raw.reason } := by
  unfold BlockCardInput.parse
  constructor
  · intro h
    obtain ⟨_, hreason, h⟩ := ok_of_bind h
    obtain ⟨_, hversion, h⟩ := ok_of_bind h
    exact ⟨hreason, integerAtLeast_ok_iff.mp hversion, (Except.ok.inj h).symm⟩
  · rintro ⟨hreason, hversion, rfl⟩
    exact (bind_of_ok hreason).trans (bind_of_ok (integerAtLeast_ok_iff.mpr hversion))

end inputs

section commands

variable {s s' : Store} {w w' w₁ w₂ : World Store Tick} {card next : Card} {lane : Lane}

theorem lane_fieldsOf (h : LaneOf s card lane) : (fieldsOf s card).lane = some lane.key := by
  have hfind : s.lanes.find? card.laneId = some lane := Table.find?_eq_some_iff.mpr ⟨h.1, h.2.1⟩
  rw [fieldsOf, hfind]
  rfl

/-- A lane found without a lane to restore is not the one a card waits in, or ends in, but for a
board that takes cards in there. -/
theorem reopenLane_key_iff {target : Lane} {key : LaneKey} (hready : key ≠ "ready")
    (hnone : laneToRestore s card = none) (hto : reopenLane s card = some target) :
    target.key = key ↔ EntersAt s card.boardId key := by
  unfold reopenLane at hto
  rw [hnone] at hto
  unfold EntersAt
  cases hfound : LaneRepository.laneWithKey s card.boardId "ready" with
  | some ready =>
    rw [hfound] at hto
    obtain rfl := Option.some.inj hto
    have hkey := (laneWithKey_mem hfound).2.2
    simp [hkey, hready.symm]
  | none =>
    rw [hfound] at hto
    have hentry : entryLane s card.boardId = some target := hto
    simp [hentry]

theorem versionOf_found {cardId : ℕ} (h : s.cards.find? cardId = some card) :
    versionOf s cardId = card.version := by
  rw [versionOf, h]
  rfl

theorem storedFields_found {cardId : ℕ} (h : s.cards.find? cardId = some card) :
    storedFields s cardId = some (fieldsOf s card) := by
  rw [storedFields, h]
  rfl

/-- What the board sends is for an active card, with its stored version. -/
theorem runAction_stored {boardId : Uuid} {posture : UndoPolicy} {recorded : RecordedAction}
    {shown : BoardCard} {action : CardAction}
    (h : runAction (BoardQueryService.snapshotOf s boardId) posture recorded = some (shown, action)) :
    ∃ card, s.cards.find? recorded.cardId = some card ∧ card.archivedAt = none ∧
      shown.version = card.version ∧ action = recorded.action := by
  obtain ⟨hshown, haction⟩ := runAction_eq_some h
  have hid : shown.id = recorded.cardId := by simpa using List.find?_some hshown
  obtain ⟨snapshot, hsnapshot, hin⟩ := List.mem_flatMap.mp (List.mem_of_find?_eq_some hshown)
  obtain ⟨lane, -, rfl⟩ := List.mem_map.mp hsnapshot
  obtain ⟨card, hcard, rfl⟩ := List.mem_map.mp hin
  obtain ⟨hrow, hactive⟩ := List.mem_filter.mp hcard
  refine ⟨card, Table.find?_eq_some_iff.mpr ⟨(mem_laneRows.mp hrow).1, hid⟩, ?_, rfl, haction⟩
  simpa using hactive

/-- The lane of a card is found by its key. -/
theorem laneWithKey_of_laneOf (h : LaneOf s card lane) :
    LaneRepository.laneWithKey s card.boardId lane.key = some lane := by
  have hsome : (LaneRepository.laneWithKey s card.boardId lane.key).isSome :=
    List.find?_isSome.mpr ⟨lane, h.1, by simp [h.2.2]⟩
  obtain ⟨found, hfound⟩ := Option.isSome_iff_exists.mp hsome
  obtain ⟨hmem, hboard, hkey⟩ := laneWithKey_mem hfound
  rw [hfound, lane_eq_of_key hmem h.1 (hboard.trans h.2.2.symm) hkey]

theorem entersAt_of_lanes {boardId : Uuid} {key : LaneKey} (hlanes : s'.lanes = s.lanes) :
    EntersAt s' boardId key ↔ EntersAt s boardId key := by
  unfold EntersAt LaneRepository.laneWithKey entryLane LaneRepository.boardLanes
  rw [hlanes]

theorem laneToRestore_of_open (h : card.resolution = none) : laneToRestore s card = none := by
  unfold laneToRestore storedCancellation
  rw [if_pos (.inl h)]
  rfl

theorem Stamped.drawn_of_mem {inputs : ℕ → Tick} {lo hi : ℕ} {log : List CardEvent} {e : CardEvent}
    (h : Stamped inputs lo log hi) (he : e ∈ log) : ∃ i < hi, e.id = (inputs i).id := by
  induction log generalizing lo with
  | nil => cases he
  | cons first log ih =>
    obtain ⟨i, -, hid, -, hlog⟩ := h
    rcases List.mem_cons.mp he with rfl | he
    · have hle := hlog.le
      exact ⟨i, by omega, hid⟩
    · exact ih hlog he

/-- An operation without a retry is its one unit of work. -/
theorem perform_once {α : Type} {body : Tx α} {a : α}
    (h : ({ first := body } : Attempts α).perform w = (.ok a, w')) : Runs body w a w' :=
  transact_ok_iff.mp h

/-- An operation whose body succeeds at once answers with a result. -/
theorem ok_of_runs (attempts : Attempts Card) {a : Card} (h : Runs attempts.first w a w') :
    ∃ result, (respond .card (attempts.perform w)).1 = .ok result := by
  rw [perform_of_runs h]
  exact ⟨.card a, rfl⟩

variable [Platform] {actor : Actor} {cardId version : ℕ} {action : CardAction} {result : Result}

/-- An accepted command rewrites its card. -/
theorem changed_of_ok
    (h : ((Operation.card (commandOf actor cardId version action)).perform w).1 = .ok result) :
    ∃ card next event, Changed (commandOf actor cardId version action) w
      (step w (.card (commandOf actor cardId version action))) card next [event] := by
  obtain ⟨w₁, hdrew, card, next, event, hchanged⟩ : ∃ w₁, Drew w w₁ ∧ ∃ card next event,
      Changed (commandOf actor cardId version action) w₁
        (step w (.card (commandOf actor cardId version action))) card next [event] := by
    cases action with
    | cancel resolution =>
      obtain ⟨a, houtcome⟩ := perform_of_ok h
      obtain ⟨w₁, hdrew, hbody⟩ := perform_retry houtcome
      obtain ⟨input, hparse, hrest⟩ := runs_parse_iff.mp hbody
      obtain ⟨card, event, hchanged⟩ := runs_cancelBody hparse hrest
      exact ⟨w₁, hdrew, card, a, event, hchanged⟩
    | reopen =>
      obtain ⟨a, houtcome⟩ := perform_of_ok h
      obtain ⟨w₁, hdrew, hbody⟩ := perform_retry houtcome
      obtain ⟨input, hparse, hrest⟩ := runs_parse_iff.mp hbody
      obtain ⟨card, event, hchanged⟩ := runs_reopenBody hparse hrest
      exact ⟨w₁, hdrew, card, a, event, hchanged⟩
    | archive =>
      obtain ⟨a, houtcome⟩ := perform_of_ok h
      obtain ⟨input, hparse, hrest⟩ := runs_parse_iff.mp (perform_once houtcome)
      obtain ⟨card, event, hchanged⟩ := runs_archiveBody hparse hrest
      exact ⟨w, .refl w, card, a, event, hchanged⟩
    | block reason =>
      obtain ⟨a, houtcome⟩ := perform_of_ok h
      obtain ⟨input, hparse, hrest⟩ := runs_parse_iff.mp (perform_once houtcome)
      obtain ⟨card, event, hchanged⟩ := runs_blockBody hparse hrest
      exact ⟨w, .refl w, card, a, event, hchanged⟩
    | unblock =>
      obtain ⟨a, houtcome⟩ := perform_of_ok h
      obtain ⟨input, hparse, hrest⟩ := runs_parse_iff.mp (perform_once houtcome)
      obtain ⟨card, event, hchanged⟩ := runs_unblockBody hparse hrest
      exact ⟨w, .refl w, card, a, event, hchanged⟩
  refine ⟨card, next, event, ?_, hchanged.rewritten.of_drew hdrew⟩
  rw [← hdrew.store]
  exact hchanged.change

/-- The actions act on these fields alone. -/
theorem fieldsOf_after (args : UndoableActionArgs) {bodies : List CardEventBody}
    (h : Change s s' (commandOf actor cardId version args.action) card next bodies)
    (hlanes : s'.lanes = s.lanes) : fieldsOf s' next = (fieldsOf s card).after args := by
  cases args with
  | cancel resolution =>
    change Change s s' (.cancel actor cardId ⟨resolution, version⟩) card next bodies at h
    cases h with
    | @cancelled _ _ _ _ _ _ done _ _ hparse _ _ _ _ _ hto _ =>
      obtain rfl := (cancel_parse_iff.mp hparse).2
      obtain ⟨hmem, -, hkey⟩ := laneWithKey_mem hto
      have hfind : s'.lanes.find? done.id = some done :=
        Table.find?_eq_some_iff.mpr ⟨hlanes ▸ hmem, rfl⟩
      simp [fieldsOf, ActionFields.after, cancelledCard, hfind, hkey]
  | archive =>
    change Change s s' (.archive actor cardId ⟨version⟩) card next bodies at h
    cases h with
    | archived _ _ hactive _ _ _ _ =>
      simp [fieldsOf, ActionFields.after, CardService.archivedCard, hlanes]
  | block reason =>
    change Change s s' (.block actor cardId ⟨reason, version⟩) card next bodies at h
    cases h with
    | blocked hparse _ _ _ _ _ =>
      simp [fieldsOf, ActionFields.after, flaggedCard, hlanes, (block_parse hparse).1]
  | unblock =>
    change Change s s' (.unblock actor cardId ⟨version⟩) card next bodies at h
    cases h with
    | unblocked _ _ _ _ _ _ =>
      simp [fieldsOf, ActionFields.after, flaggedCard, hlanes]

/-- What every command finds, and what it leaves alone. -/
structure ActedOn (s : Store) (cardId version : ℕ) (card next : Card) : Prop where
  found : s.cards.find? cardId = some card
  current : card.version = version
  valid : ValidVersion version
  references : SameReferences card next
  moves_on : next.version = card.version + 1

theorem actedOn_of_change {bodies : List CardEventBody}
    (h : Change s s' (commandOf actor cardId version action) card next bodies) :
    ActedOn s cardId version card next := by
  have hnext := h.version
  cases action with
  | cancel resolution =>
    change Change s s' (.cancel actor cardId ⟨resolution, version⟩) card next bodies at h
    cases h with
    | cancelled hparse hfound _ hversion _ _ _ _ =>
      obtain ⟨hvalid, rfl⟩ := cancel_parse_iff.mp hparse
      exact ⟨hfound, hversion, hvalid, ⟨rfl, rfl, rfl, rfl, rfl⟩, hnext⟩
  | reopen =>
    change Change s s' (.reopen actor cardId ⟨version⟩) card next bodies at h
    cases h with
    | reopened hparse hfound hversion _ _ _ _ =>
      obtain ⟨hvalid, rfl⟩ := version_parse_iff.mp hparse
      exact ⟨hfound, hversion, hvalid, ⟨rfl, rfl, rfl, rfl, rfl⟩, hnext⟩
  | archive =>
    change Change s s' (.archive actor cardId ⟨version⟩) card next bodies at h
    cases h with
    | archived hparse hfound _ hversion _ _ _ =>
      obtain ⟨hvalid, rfl⟩ := version_parse_iff.mp hparse
      exact ⟨hfound, hversion, hvalid, ⟨rfl, rfl, rfl, rfl, rfl⟩, hnext⟩
  | block reason =>
    change Change s s' (.block actor cardId ⟨reason, version⟩) card next bodies at h
    cases h with
    | blocked hparse hfound _ hversion _ _ =>
      obtain ⟨-, hvalid, rfl⟩ := block_parse_iff.mp hparse
      exact ⟨hfound, hversion, hvalid, ⟨rfl, rfl, rfl, rfl, rfl⟩, hnext⟩
  | unblock =>
    change Change s s' (.unblock actor cardId ⟨version⟩) card next bodies at h
    cases h with
    | unblocked hparse hfound _ hversion _ _ =>
      obtain ⟨hvalid, rfl⟩ := version_parse_iff.mp hparse
      exact ⟨hfound, hversion, hvalid, ⟨rfl, rfl, rfl, rfl, rfl⟩, hnext⟩

/-- Of the undoable actions none takes an archived card. -/
theorem unarchived_of_change (args : UndoableActionArgs) {bodies : List CardEventBody}
    (h : Change s s' (commandOf actor cardId version args.action) card next bodies) :
    card.archivedAt = none := by
  cases args with
  | cancel resolution =>
    change Change s s' (.cancel actor cardId ⟨resolution, version⟩) card next bodies at h
    cases h with
    | cancelled _ _ hactive => exact hactive
  | archive =>
    change Change s s' (.archive actor cardId ⟨version⟩) card next bodies at h
    cases h with
    | archived _ _ hactive => exact hactive
  | block reason =>
    change Change s s' (.block actor cardId ⟨reason, version⟩) card next bodies at h
    cases h with
    | blocked _ _ hactive => exact hactive
  | unblock =>
    change Change s s' (.unblock actor cardId ⟨version⟩) card next bodies at h
    cases h with
    | unblocked _ _ hactive => exact hactive

/-- A command accepted for the card before is accepted for the card as it came back. -/
theorem ok_again {args : UndoableActionArgs} {back : Card}
    (h : ((Operation.card (commandOf actor card.id version args.action)).perform w).1 = .ok result)
    (hback : Returned w w₂ card back) (hblocked : back.blocked = card.blocked)
    (hvalid : ValidVersion back.version) :
    ∃ result', ((Operation.card (commandOf actor card.id back.version args.action)).perform w₂).1 =
      .ok result' := by
  cases args with
  | cancel resolution =>
    obtain ⟨a, houtcome⟩ := perform_of_ok h
    obtain ⟨w₁, hdrew, hbody⟩ := perform_retry houtcome
    obtain ⟨input, hparse, hrest⟩ := runs_parse_iff.mp hbody
    obtain ⟨-, rfl⟩ := cancel_parse_iff.mp hparse
    obtain ⟨r, w₃, hagain⟩ :=
      runs_cancelBody_again ⟨resolution, back.version⟩ hrest (hback.of_drew hdrew) rfl
    have hparse' : CancelCardInput.parse ⟨resolution, back.version⟩ = .ok _ :=
      cancel_parse_iff.mpr ⟨hvalid, rfl⟩
    exact ok_of_runs (CardService.cancel actor card.id ⟨resolution, back.version⟩)
      (runs_parse_iff.mpr ⟨_, hparse', hagain⟩)
  | archive =>
    obtain ⟨a, houtcome⟩ := perform_of_ok h
    obtain ⟨input, -, hrest⟩ := runs_parse_iff.mp (perform_once houtcome)
    obtain ⟨r, w₃, hagain⟩ := runs_archiveBody_again ⟨back.version⟩ hrest hback rfl
    have hparse' : VersionInput.parse ⟨back.version⟩ = .ok _ := version_parse_iff.mpr ⟨hvalid, rfl⟩
    exact ok_of_runs (CardService.archive actor card.id ⟨back.version⟩)
      (runs_parse_iff.mpr ⟨_, hparse', hagain⟩)
  | block reason =>
    obtain ⟨a, houtcome⟩ := perform_of_ok h
    obtain ⟨input, hparse, hrest⟩ := runs_parse_iff.mp (perform_once houtcome)
    obtain ⟨hreason, -, rfl⟩ := block_parse_iff.mp hparse
    obtain ⟨r, w₃, hagain⟩ := runs_setBlockedFlagBody_again back.version hrest hback rfl hblocked
    have hparse' : BlockCardInput.parse ⟨reason, back.version⟩ = .ok ⟨trim reason, back.version⟩ :=
      block_parse_iff.mpr ⟨hreason, hvalid, rfl⟩
    exact ok_of_runs (CardService.block actor card.id ⟨reason, back.version⟩)
      (runs_parse_iff.mpr ⟨_, hparse', hagain⟩)
  | unblock =>
    obtain ⟨a, houtcome⟩ := perform_of_ok h
    obtain ⟨input, -, hrest⟩ := runs_parse_iff.mp (perform_once houtcome)
    obtain ⟨r, w₃, hagain⟩ := runs_setBlockedFlagBody_again back.version hrest hback rfl hblocked
    have hparse' : VersionInput.parse ⟨back.version⟩ = .ok _ := version_parse_iff.mpr ⟨hvalid, rfl⟩
    exact ok_of_runs (CardService.unblock actor card.id ⟨back.version⟩)
      (runs_parse_iff.mpr ⟨_, hparse', hagain⟩)

/-- Ids that are still to be drawn are greater than those in the log. -/
theorem freshIds_run {inputs : ℕ → Tick} (hids : IdsIncrease inputs) (ops : List Operation) :
    FreshIds (run (freshlySeeded inputs) ops) := by
  have hlog := stampedLog_run inputs ops
  intro i hi e he
  obtain ⟨j, hj, hid⟩ := Stamped.drawn_of_mem hlog.stamped he
  rw [hlog.source, hid]
  exact ne_of_lt (hids j i (by omega))

/-- A card with its fields as before is in the same lane, on a store with the same guards. -/
theorem returned_of_fields {actor' : Actor} {args : UndoableActionArgs} {undo : CardAction} {version' : ℕ}
    {back : Card} {event event' : CardEvent}
    (haction : Changed (commandOf actor card.id version args.action) w w₁ card next [event])
    (hundo : Changed (commandOf actor' next.id version' undo) w₁ w₂ next back [event'])
    (hlane : LaneOf w.store card lane) (hplaced : Placed SettledRow (fun _ => True) w₂.store)
    (hfields : fieldsOf w₂.store back = fieldsOf w.store card) (hfresh : FreshIds w₂) :
    Returned w w₂ card back := by
  have hrefs := (actedOn_of_change haction.change).references.trans
    (actedOn_of_change hundo.change).references
  have hlanes : w₂.store.lanes = w.store.lanes :=
    hundo.rewritten.lanes.trans haction.rewritten.lanes
  obtain ⟨lane', hlane', -⟩ := hplaced.cards back (Table.mem_of_find? hundo.rewritten.find?_self)
  have hkey : lane'.key = lane.key := by
    have hsame := congrArg ActionFields.lane hfields
    rw [lane_fieldsOf hlane, lane_fieldsOf hlane'] at hsame
    exact Option.some.inj hsame
  have hlaneEq : lane' = lane := by
    refine lane_eq_of_key (hlanes ▸ hlane'.1) hlane.1 ?_ hkey
    rw [hlane'.2.2, hlane.2.2, hrefs.boardId]
  have hactive : back.archivedAt = card.archivedAt := by
    have hsame := congrArg ActionFields.archived hfields
    rw [unarchived_of_change args haction.change]
    simpa [fieldsOf, unarchived_of_change args haction.change] using hsame
  refine returned_of_rewritten haction.rewritten hundo.rewritten hrefs ?_ hactive hfresh
  rw [← hlane'.2.1, hlaneEq, hlane.2.1]

/-- The fields of a reopened card. -/
theorem fieldsOf_reopened {bodies : List CardEventBody}
    (h : Change s s' (commandOf actor cardId version .reopen) card next bodies)
    (hlanes : s'.lanes = s.lanes) :
    ∃ target, reopenLane s card = some target ∧
      fieldsOf s' next = { fieldsOf s card with
        lane := some target.key
        resolution := none
        archived := false
        waitingReason := if (laneToRestore s card).isSome && target.key == waitingKey then
          (storedCancellation s card).bind (·.waitingReason) else (fieldsOf s card).waitingReason
        expectedResumeAt := if (laneToRestore s card).isSome && target.key == waitingKey then
          (storedCancellation s card).bind (·.expectedResumeAt)
          else (fieldsOf s card).expectedResumeAt } := by
  change Change s s' (.reopen actor cardId ⟨version⟩) card next bodies at h
  cases h with
  | @reopened _ _ _ _ _ _ target _ _ _ _ _ _ _ hto _ =>
    obtain ⟨hmem, -⟩ := reopenLane_mem hto
    have hfind : s'.lanes.find? target.id = some target :=
      Table.find?_eq_some_iff.mpr ⟨hlanes ▸ hmem, rfl⟩
    refine ⟨target, hto, ?_⟩
    simp [fieldsOf, reopenedCard, hfind]

/-- A reopen takes an archived card back only where the board has nowhere else to put it. -/
theorem archive_undone_iff {actor' : Actor} {version' : ℕ} {back : Card} {event event' : CardEvent}
    (haction : Changed (commandOf actor card.id version .archive) w w₁ card next [event])
    (hundo : Changed (commandOf actor' next.id version' .reopen) w₁ w₂ next back [event']) :
    fieldsOf w₂.store back = fieldsOf w.store card ↔ Undoable w.store card lane .archive := by
  obtain ⟨target, hto, hback⟩ := fieldsOf_reopened hundo.change hundo.rewritten.lanes
  have hlanes := haction.rewritten.lanes
  have hactive := unarchived_of_change .archive haction.change
  have hchange := haction.change
  change Change _ _ (.archive actor card.id ⟨version⟩) card next _ at hchange
  generalize [event].map (·.body) = bodies at hchange
  cases hchange with
  | @archived _ _ _ _ _ home nowIso _ _ _ _ hhome hdone _ =>
    have hkey : (fieldsOf w.store card).lane = some doneKey := hdone ▸ lane_fieldsOf hhome
    have hsame : fieldsOf w₁.store (CardService.archivedCard card nowIso) =
        { fieldsOf w.store card with archived := true } := by
      simp [fieldsOf, CardService.archivedCard, hlanes]
    rw [hsame] at hback
    constructor
    · intro hfields
      rw [hback] at hfields
      have hresolution : card.resolution = none := (congrArg ActionFields.resolution hfields).symm
      refine ⟨hresolution, ?_⟩
      have htarget := congrArg ActionFields.lane hfields
      rw [hkey] at htarget
      have hnone : laneToRestore w₁.store (CardService.archivedCard card nowIso) = none :=
        laneToRestore_of_open hresolution
      rw [← entersAt_of_lanes hlanes]
      exact (reopenLane_key_iff (by decide) hnone hto).mp (Option.some.inj htarget)
    · rintro ⟨hresolution, henters⟩
      have hnone : laneToRestore w₁.store (CardService.archivedCard card nowIso) = none :=
        laneToRestore_of_open hresolution
      rw [← entersAt_of_lanes hlanes] at henters
      have htarget := (reopenLane_key_iff (by decide) hnone hto).mpr henters
      have hresolution' : (fieldsOf w.store card).resolution = none := hresolution
      have hactive' : (fieldsOf w.store card).archived = false := by
        rw [fieldsOf, hactive]
        rfl
      rw [hback, hnone, htarget]
      generalize fieldsOf w.store card = fields at hkey hresolution' hactive'
      cases fields
      simp_all

/-- An unblock undoes a block. -/
theorem block_undone {actor' : Actor} {version' : ℕ} {reason : String} {back : Card} {event event' : CardEvent}
    (haction : Changed (commandOf actor card.id version (.block reason)) w w₁ card next [event])
    (hundo : Changed (commandOf actor' next.id version' .unblock) w₁ w₂ next back [event'])
    (hsettled : SettledRow lane.key card) : fieldsOf w₂.store back = fieldsOf w.store card := by
  have haway := fieldsOf_after (.block reason) haction.change haction.rewritten.lanes
  have hback := fieldsOf_after .unblock hundo.change hundo.rewritten.lanes
  have hchange := haction.change
  change Change _ _ (.block actor card.id ⟨reason, version⟩) card next _ at hchange
  generalize [event].map (·.body) = bodies at hchange
  cases hchange with
  | blocked _ _ _ _ hunflagged _ =>
    have hreason : card.blockedReason = none := by
      have hflagged := hsettled.flagged
      rw [hunflagged] at hflagged
      simpa using hflagged.symm
    rw [hback, haway]
    simp [fieldsOf, ActionFields.after, hunflagged, hreason]

/-- A block with the reason there was undoes an unblock. -/
theorem unblock_undone {actor' : Actor} {version' : ℕ} {reason : String} {back : Card} {event event' : CardEvent}
    (haction : Changed (commandOf actor card.id version .unblock) w w₁ card next [event])
    (hundo : Changed (commandOf actor' next.id version' (.block reason)) w₁ w₂ next back [event'])
    (hsettled : SettledRow lane.key card) (hreason : card.blockedReason = some reason) :
    fieldsOf w₂.store back = fieldsOf w.store card := by
  have haway := fieldsOf_after .unblock haction.change haction.rewritten.lanes
  have hback := fieldsOf_after (.block reason) hundo.change hundo.rewritten.lanes
  have hflagged : card.blocked = true := by rw [hsettled.flagged, hreason]; rfl
  rw [hback, haway]
  simp [fieldsOf, ActionFields.after, hflagged, hreason, hsettled.trimmed reason hreason]

/-- A reopen takes a cancelled card back, but for a card that waited without a reason. -/
theorem cancel_undone_iff {actor' : Actor} {version' : ℕ} {resolution : CancelResolution} {back : Card}
    {event event' : CardEvent}
    (haction : Changed (commandOf actor card.id version (.cancel resolution)) w w₁ card next [event])
    (hundo : Changed (commandOf actor' next.id version' .reopen) w₁ w₂ next back [event'])
    (hlane : LaneOf w.store card lane) (hsettled : SettledRow lane.key card)
    (hidle : idleRule lane.key card) (hcancelled : Cancelled card lane.key w₁.store next)
    (horder : AppendOrdered (eventsOf w₁.store next.id)) :
    fieldsOf w₂.store back = fieldsOf w.store card ↔
      Undoable w.store card lane (.cancel resolution) := by
  obtain ⟨target, hto, hback⟩ := fieldsOf_reopened hundo.change hundo.rewritten.lanes
  have hlanes := haction.rewritten.lanes
  have hopen : lane.key ≠ doneKey := by
    have hchange := haction.change
    change Change _ _ (.cancel actor card.id ⟨resolution, version⟩) card next _ at hchange
    generalize [event].map (·.body) = bodies at hchange
    cases hchange with
    | cancelled _ _ _ _ hhome hopen _ _ => rwa [LaneOf.unique hlane hhome]
  have hactive := unarchived_of_change (.cancel resolution) haction.change
  have haway := fieldsOf_after (.cancel resolution) haction.change hlanes
  have hkey := lane_fieldsOf hlane
  have hresolution : (fieldsOf w.store card).resolution = none := hsettled.resolved hopen
  have hactive' : (fieldsOf w.store card).archived = false := by
    rw [fieldsOf, hactive]
    rfl
  have hwaits : (fieldsOf w.store card).waitingReason = card.waitingReason := rfl
  have hresumes : (fieldsOf w.store card).expectedResumeAt = card.expectedResumeAt := rfl
  obtain ⟨payload, hstored, hfrom, hreason, hday⟩ := hcancelled.storedCancellation horder
  rw [hback, haway]
  by_cases hlost : lane.key = waitingKey ∧ card.waitingReason = none
  · obtain ⟨hwaiting, hunknown⟩ := hlost
    have hnone : laneToRestore w₁.store next = none := by
      rw [laneToRestore, hstored, priorLaneKey, Option.bind_some,
        if_pos ⟨hfrom.trans hwaiting, hreason.trans hunknown⟩]
      rfl
    have htarget : target.key = waitingKey ↔ EntersAt w.store card.boardId waitingKey := by
      rw [reopenLane_key_iff (by decide) hnone hto, entersAt_of_lanes hlanes, hcancelled.boardId]
    rw [hunknown] at hwaits
    rw [hwaiting] at hkey
    simp only [Undoable, hwaiting, hunknown, true_implies, ← htarget, hnone, ← hresumes]
    generalize fieldsOf w.store card = fields at hkey hresolution hactive' hwaits
    constructor
    · intro hsame
      have hthere := (congrArg ActionFields.lane hsame).trans hkey
      exact ⟨(congrArg ActionFields.expectedResumeAt hsame).symm, Option.some.inj hthere⟩
    · rintro ⟨hday, hthere⟩
      cases fields
      simp_all [ActionFields.after]
  · have hrestored : laneToRestore w₁.store next = some lane := by
      rw [laneToRestore, hstored, priorLaneKey, Option.bind_some, if_neg (by rwa [hfrom, hreason]),
        Option.bind_some, hfrom, hcancelled.boardId]
      exact laneWithKey_of_laneOf ⟨hlanes ▸ hlane.1, hlane.2⟩
    have hsame : target = lane := by
      rw [reopenLane, hrestored] at hto
      exact (Option.some.inj hto).symm
    refine iff_of_true ?_ fun hwaiting hunknown => absurd ⟨hwaiting, hunknown⟩ hlost
    rw [hrestored, hsame, hstored]
    generalize fieldsOf w.store card = fields at hkey hresolution hactive' hwaits hresumes
    cases fields
    by_cases hwaiting : lane.key = waitingKey
    · have hknown : card.waitingReason.isSome :=
        Option.ne_none_iff_isSome.mp fun hnone => hlost ⟨hwaiting, hnone⟩
      have hday' := hday hknown
      simp_all [ActionFields.after]
    · obtain ⟨hnone, hnone'⟩ := hidle hwaiting
      simp_all [ActionFields.after]

/-- What an accepted command did, when it was sent for the card as it is stored. -/
theorem changed_of_sent (hfound : w.store.cards.find? cardId = some card)
    (h : ((sent w.store actor cardId action).perform w).1 = .ok result) :
    ∃ next event, Changed (commandOf actor cardId card.version action) w
      (step w (sent w.store actor cardId action)) card next [event] := by
  rw [sent, versionOf_found hfound] at h ⊢
  obtain ⟨found, next, event, hchanged⟩ := changed_of_ok h
  have hsame := (actedOn_of_change hchanged.change).found
  rw [hfound] at hsame
  obtain rfl := Option.some.inj hsame
  exact ⟨next, event, hchanged⟩

/-- After the undo, all depends on the fields being back and on one more version. -/
theorem undoneAndRedone_iff {actor' : Actor} {args : UndoableActionArgs} {undo : CardAction}
    {version' : ℕ} {back : Card} {event event' : CardEvent}
    (haccepted : ((sent w.store actor card.id args.action).perform w).1 = .ok result)
    (haction : Changed (commandOf actor card.id version args.action) w w₁ card next [event])
    (hundo : Changed (commandOf actor' next.id version' undo) w₁ w₂ next back [event'])
    (hlane : LaneOf w.store card lane) (hplaced : Placed SettledRow (fun _ => True) w₂.store)
    (hfresh : FreshIds w₂) :
    UndoneAndRedone w w₁ w₂ actor card.id args.action ↔
      card.version + 2 ≤ 9007199254740991 ∧ fieldsOf w₂.store back = fieldsOf w.store card := by
  have hid : next.id = card.id := haction.rewritten.key
  have hfound := haction.rewritten.found
  have hfound₁ := haction.rewritten.find?_self
  have hfound₂ : w₂.store.cards.find? card.id = some back := by
    rw [← hid]
    exact hundo.rewritten.find?_self
  have hversion : back.version = card.version + 2 := by
    rw [(actedOn_of_change hundo.change).moves_on, (actedOn_of_change haction.change).moves_on]
  have hundone : storedFields w₂.store card.id = storedFields w.store card.id ↔
      fieldsOf w₂.store back = fieldsOf w.store card := by
    rw [storedFields_found hfound₂, storedFields_found hfound, Option.some.injEq]
  constructor
  · rintro ⟨hback, ⟨result', hredo⟩, -⟩
    obtain ⟨again, event'', hchanged⟩ := changed_of_sent hfound₂ hredo
    have hvalid := (actedOn_of_change hchanged.change).valid
    rw [hversion] at hvalid
    exact ⟨hvalid.2, hundone.mp hback⟩
  · rintro ⟨hbound, hfields⟩
    have hback := returned_of_fields haction hundo hlane hplaced hfields hfresh
    have hvalid : ValidVersion back.version := by
      rw [hversion]
      exact ⟨by omega, hbound⟩
    rw [sent] at haccepted
    obtain ⟨result', hredo⟩ := ok_again haccepted hback (congrArg ActionFields.blocked hfields) hvalid
    have hsent : sent w₂.store actor card.id args.action =
        .card (commandOf actor card.id back.version args.action) := by
      rw [sent, versionOf_found hfound₂]
    rw [← hsent] at hredo
    obtain ⟨again, event'', hchanged⟩ := changed_of_sent hfound₂ hredo
    refine ⟨hundone.mpr hfields, ⟨result', hredo⟩, ?_⟩
    have hid₂ : back.id = card.id := hback.references.id
    have hagain := hchanged.rewritten.find?_self
    rw [hid₂] at hagain
    rw [storedFields_found hagain, storedFields_found hfound₁,
      fieldsOf_after args hchanged.change hchanged.rewritten.lanes,
      fieldsOf_after args haction.change haction.rewritten.lanes, hfields]

/-- The board has no archived card to send the inverse of an archive for. -/
theorem archive_undo_not_sent {boardId : Uuid} {posture : UndoPolicy} {recorded : RecordedAction}
    {event : CardEvent} (hcard : recorded.cardId = card.id)
    (h : Changed (commandOf actor card.id version .archive) w w₁ card next [event]) :
    runAction (BoardQueryService.snapshotOf w₁.store boardId) posture recorded = none := by
  by_contra hne
  obtain ⟨⟨shown, action⟩, hsent⟩ := Option.ne_none_iff_exists'.mp hne
  obtain ⟨row, hrow, hactive, -⟩ := runAction_stored hsent
  have hafter := fieldsOf_after .archive h.change h.rewritten.lanes
  rw [hcard, h.rewritten.find?_self] at hrow
  obtain rfl := Option.some.inj hrow
  have harchived := congrArg ActionFields.archived hafter
  simp [fieldsOf, ActionFields.after, hactive] at harchived

end commands

/-- The world after an action of the first card of the sample board. -/
def sampleSent (w : World Store Tick) (action : CardAction) : World Store Tick :=
  @step samplePlatform w (sent w.store sampleActor 1 action)

/-- A card that waits for parts, and is cancelled. -/
def partsWorld : World Store Tick := @run samplePlatform (freshlySeeded sampleTicks) toWaiting

def partsCancelled : World Store Tick := sampleSent partsWorld (.cancel .declined)

end AiKanban.Invariants
