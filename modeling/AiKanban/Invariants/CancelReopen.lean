import AiKanban.Invariants.AuditReplay
import AiKanban.Invariants.LogOrder
import AiKanban.Invariants.WaitingLane

/-!
# Cancelling and reopening

A cancelled card that stays in `done` keeps what a reopen does not read from the log, and its
newest cancellation stays the one that took it there, so a reopen undoes the cancellation.
-/
namespace AiKanban.Invariants

open Domain Db Relational Services Services.CardService Transactions Effects
open Application

/-- A card outside the waiting lane has neither a reason nor a date. -/
def idleRule (key : LaneKey) (card : Card) : Prop :=
  key ≠ waitingKey → card.waitingReason = none ∧ card.expectedResumeAt = none

section idle

variable {s : Store} {card : Card}

theorem idleRule_edited {input : UpdateCardInput} {updatedAt : Instant} {lane : Lane}
    (hlane : LaneOf s card lane) (hrule : idleRule lane.key card)
    (hallowed : WaitingEditAllowed s card input) :
    idleRule lane.key (editedCard card input updatedAt) := by
  intro hkey
  obtain ⟨hreason, hday⟩ := hrule hkey
  rcases hallowed with ⟨hnone, hnone'⟩ | ⟨waiting, hwaiting, hwaitingKey⟩
  · simp [editedCard, hnone, hnone', hreason, hday]
  · rw [LaneOf.unique hlane hwaiting] at hkey
    exact absurd hwaitingKey hkey

theorem idleRule_reopened {fromLane target : Lane} {position : String} {updatedAt : Instant}
    {payload : Option Cancellation} {restored : Option Lane} (hrule : idleRule fromLane.key card)
    (hdone : fromLane.key = doneKey) :
    idleRule target.key (reopenedCard card payload restored target position updatedAt) := by
  intro hkey
  obtain ⟨hreason, hday⟩ := hrule (by rw [hdone]; decide)
  simp [reopenedCard, hkey, hreason, hday]

variable [Platform]

theorem lawful_idle : Lawful idleRule (fun _ => True) (fun _ _ => True) where
  created := fun _ _ _ => ⟨rfl, rfl⟩
  changed := by
    intro w s' op card next bodies lane _ _ _ hchange hlane hrule
    refine ⟨?_, fun _ _ _ _ => trivial⟩
    cases hchange with
    | edited _ _ _ _ hallowed _ _ => exact ⟨lane, hlane, idleRule_edited hlane hrule hallowed⟩
    | reordered _ _ _ _ hof _ =>
      obtain rfl := LaneOf.unique hlane hof
      exact ⟨lane, ⟨hlane.1, rfl, hlane.2.2⟩, hrule⟩
    | @moved _ _ _ _ _ fromLane toLane fields position updatedAt startedAt _ _ _ _ _ hof hto hother
        hentry _ =>
      obtain rfl := LaneOf.unique hlane hof
      obtain ⟨hmem, hboard, -⟩ := laneWithKey_mem hto
      refine ⟨toLane, ⟨hmem, ?_, ?_⟩, fun hkey => ?_⟩
      · obtain ⟨_, _, _, _, _, hcross⟩ := crossLane_frame card
          (placedCard card toLane position updatedAt) lane toLane fields startedAt
        rw [hcross]
        rfl
      · obtain ⟨_, _, _, _, _, hcross⟩ := crossLane_frame card
          (placedCard card toLane position updatedAt) lane toLane fields startedAt
        rw [hcross]
        exact hboard
      · rcases hentry with ⟨hwaiting, -⟩ | ⟨-, rfl⟩
        · exact absurd hwaiting hkey
        · by_cases hfrom : lane.key = waitingKey
          · simp only [crossLane, if_pos hfrom]
            split_ifs <;> simp
          · obtain ⟨hreason, hday⟩ := hrule hfrom
            simp only [crossLane, if_neg hfrom]
            split_ifs <;> simp [placedCard, hreason, hday]
    | cancelled _ _ _ _ hof _ hto _ =>
      obtain ⟨hmem, hboard, -⟩ := laneWithKey_mem hto
      exact ⟨_, ⟨hmem, rfl, hboard⟩, fun _ => ⟨rfl, rfl⟩⟩
    | reopened _ _ _ hof hdone hto _ =>
      obtain rfl := LaneOf.unique hlane hof
      obtain ⟨hmem, hboard⟩ := reopenLane_mem hto
      exact ⟨_, ⟨hmem, rfl, hboard⟩, idleRule_reopened hrule hdone⟩
    | archived | expired | blocked | unblocked => exact ⟨lane, hlane, hrule⟩
  alerted := fun hrule hkey => hrule hkey
  unlocated := fun hrule hkey => hrule hkey

/-- In every reachable state only cards of the waiting lane wait for something. -/
theorem placed_idle (inputs : ℕ → Tick) (ops : List Operation) :
    Placed idleRule (fun _ => True) (run (freshlySeeded inputs) ops).store := by
  refine run_invariant (I := fun w => Placed idleRule (fun _ => True) w.store)
    (P := fun _ _ => True) (fun _ _ _ _ _ => trivial) (fun _ _ _ _ => trivial)
    (fun _ _ _ hw hop heffect => placed_effect lawful_idle hw hop heffect) ops ?_
    (runsUnder_true ops)
  exact ⟨by simp, fun _ _ _ _ => trivial⟩

end idle

/-- The card is in a lane with the done key. -/
def KeptInDone (s : Store) (cardId : ℕ) : Prop :=
  ∃ card ∈ s.cards.find? cardId, ∃ lane ∈ s.lanes.rows,
    lane.id = card.laneId ∧ lane.boardId = card.boardId ∧ lane.key = doneKey

/-- The operation leaves the card in `done` and does not reopen it. -/
def StaysDone [Platform] (cardId : ℕ) (w : World Store Tick) (op : Operation) : Prop :=
  KeptInDone (step w op).store cardId ∧
    ∀ actor raw, op = .card (.reopen actor cardId raw) → ∃ e, (op.perform w).1 = .error e

/-- The card is in `done` since it was cancelled out of a lane with the key, as the row before. -/
structure Cancelled (before : Card) (key : LaneKey) (s : Store) (card : Card) : Prop where
  id : card.id = before.id
  boardId : card.boardId = before.boardId
  lane : ∃ lane, LaneOf s card lane ∧ lane.key = doneKey
  resolution : ∃ resolution : CancelResolution, card.resolution = some resolution.toResolution
  workStartedAt : card.workStartedAt = before.workStartedAt
  idle : card.waitingReason = none ∧ card.expectedResumeAt = none
  log : ∃ older e payload, cancellationsOf s before.id = older ++ [e] ∧
    e.body.cancellation? = some payload ∧ payload.fromLane = key ∧
    payload.waitingReason = before.waitingReason ∧
    (before.waitingReason.isSome → payload.expectedResumeAt = before.expectedResumeAt)

section cancelled

variable {s s' : Store} {before card next : Card} {key : LaneKey}

/-- What a cancellation is found by is all that matters of the row. -/
theorem Cancelled.frame (h : Cancelled before key s card) (hid : next.id = card.id)
    (hboard : next.boardId = card.boardId)
    (hlane : ∃ lane, LaneOf s' next lane ∧ lane.key = doneKey)
    (hresolution : next.resolution = card.resolution)
    (hstarted : next.workStartedAt = card.workStartedAt)
    (hreason : next.waitingReason = card.waitingReason)
    (hday : next.expectedResumeAt = card.expectedResumeAt)
    (hlog : cancellationsOf s' card.id = cancellationsOf s card.id) :
    Cancelled before key s' next where
  id := hid.trans h.id
  boardId := hboard.trans h.boardId
  lane := hlane
  resolution := hresolution ▸ h.resolution
  workStartedAt := hstarted.trans h.workStartedAt
  idle := by rw [hreason, hday]; exact h.idle
  log := by
    rw [h.id] at hlog
    rw [hlog]
    exact h.log

/-- A unit of work that keeps the row, its lane and its log keeps the cancellation. -/
theorem Cancelled.of_lanes (h : Cancelled before key s card) (hcard : card ∈ s.cards.rows)
    (hlanes : LanesKept s s')
    (hlog : cancellationsOf s' card.id = cancellationsOf s card.id) :
    Cancelled before key s' card := by
  obtain ⟨lane, hlane, hkey⟩ := h.lane
  obtain ⟨lane', hlane', hkey'⟩ := hlanes card hcard lane hlane
  exact h.frame rfl rfl ⟨lane', hlane', hkey'.trans hkey⟩ rfl rfl rfl rfl hlog

/-- The cancellation a cancelled card is reopened from. -/
theorem Cancelled.storedCancellation (h : Cancelled before key s card)
    (horder : AppendOrdered (eventsOf s card.id)) :
    ∃ payload, storedCancellation s card = some payload ∧ payload.fromLane = key ∧
      payload.waitingReason = before.waitingReason ∧
      (before.waitingReason.isSome → payload.expectedResumeAt = before.expectedResumeAt) := by
  obtain ⟨older, e, payload, hlog, hpayload, hfrom, hreason, hday⟩ := h.log
  obtain ⟨resolution, hresolution⟩ := h.resolution
  refine ⟨payload, ?_, hfrom, hreason, hday⟩
  rw [← h.id] at hlog
  have hcancellations : AppendOrdered (older ++ [e]) := by
    rw [← hlog, cancellationsOf_eq]
    exact horder.sublist List.filter_sublist
  have hlatest : EventRepository.latest s card.id [.cancelled] =
      newestFirst (·.createdAt) (·.id) (older ++ [e]) := by
    rw [← hlog]
    rfl
  unfold Effects.storedCancellation
  rw [if_neg, hlatest, head?_newestFirst_append hcancellations]
  · exact hpayload
  · rw [hresolution]
    cases resolution <;> decide

/-- The rows agree on what a cancellation keeps. -/
structure SameWork (card next : Card) : Prop where
  id : next.id = card.id
  boardId : next.boardId = card.boardId
  resolution : next.resolution = card.resolution
  workStartedAt : next.workStartedAt = card.workStartedAt
  waitingReason : next.waitingReason = card.waitingReason
  expectedResumeAt : next.expectedResumeAt = card.expectedResumeAt

theorem sameWork_edited {input : UpdateCardInput} {updatedAt : Instant} {lane : Lane}
    (hlane : LaneOf s card lane) (hdone : lane.key = doneKey)
    (hallowed : WaitingEditAllowed s card input) :
    SameWork card (editedCard card input updatedAt) := by
  rcases hallowed with ⟨hreason, hday⟩ | ⟨waiting, hwaiting, hkey⟩
  · exact ⟨rfl, rfl, rfl, rfl, by simp [editedCard, hreason], by simp [editedCard, hday]⟩
  · rw [← LaneOf.unique hlane hwaiting, hdone] at hkey
    exact absurd hkey (by decide)

variable [Platform]

/-- A rewrite that leaves a cancelled card in `done` and does not reopen it adds no cancellation. -/
theorem sameWork_of_change {op : CardOperation} {bodies : List CardEventBody} {lane : Lane}
    (hchange : Change s s' op card next bodies) (hlane : LaneOf s card lane)
    (hdone : lane.key = doneKey) (hlanes : s'.lanes = s.lanes)
    (hkept : ∃ lane ∈ s'.lanes.rows, lane.id = next.laneId ∧ lane.boardId = next.boardId ∧
      lane.key = doneKey)
    (hop : ∀ actor raw, op ≠ .reopen actor card.id raw) :
    SameWork card next ∧
      ∀ body ∈ bodies, [CardEventType.cancelled].contains body.eventType = false := by
  cases hchange with
  | edited _ _ _ _ hallowed _ _ =>
    refine ⟨sameWork_edited hlane hdone hallowed, fun body hbody => ?_⟩
    obtain ⟨change, -, rfl⟩ := List.mem_map.mp hbody
    rfl
  | @moved _ _ _ _ _ fromLane toLane fields position updatedAt startedAt _ _ _ _ _ hof hto hother
      _ _ =>
    exfalso
    obtain rfl := LaneOf.unique hlane hof
    obtain ⟨hmem, hboard, -⟩ := laneWithKey_mem hto
    obtain ⟨_, _, _, _, _, hcross⟩ := crossLane_frame card
      (placedCard card toLane position updatedAt) lane toLane fields startedAt
    rw [hcross, hlanes] at hkept
    obtain ⟨done, hdoneMem, hid, -, hkey⟩ := hkept
    have htarget : done = toLane := lane_eq_of_id hdoneMem hmem hid
    have hsame : toLane = lane := by
      refine lane_eq_of_key hmem hlane.1 (hboard.trans hlane.2.2.symm) ?_
      rw [hdone, ← htarget, hkey]
    exact hother (congrArg Lane.id hsame)
  | cancelled _ _ _ _ hof hopen _ _ =>
    rw [← LaneOf.unique hlane hof] at hopen
    exact absurd hdone hopen
  | reopened _ hfound _ _ _ _ _ =>
    obtain rfl := Table.find?_key hfound
    exact absurd rfl (hop _ _)
  | _ => exact ⟨⟨rfl, rfl, rfl, rfl, rfl, rfl⟩, by simp [CardEventBody.eventType]⟩

end cancelled

section runs

variable {w w' : World Store Tick} {before card : Card} {key : LaneKey}

theorem cancellationsOf_same (h : w'.store.cardEvents = w.store.cardEvents) (cardId : ℕ) :
    cancellationsOf w'.store cardId = cancellationsOf w.store cardId := by
  unfold cancellationsOf
  rw [h]

theorem not_cancelled_of_onThread {body : CardEventBody} (h : onThread body = true) :
    [CardEventType.cancelled].contains body.eventType = false := by
  cases body <;> first | rfl | cases h

/-- Events that are not cancellations leave the cancellations of every card alone. -/
theorem cancellationsOf_other {events : List CardEvent} {cardId : ℕ} (id : ℕ)
    (hlog : w'.store.cardEvents.rows = w.store.cardEvents.rows ++ events)
    (habout : ∀ e ∈ events, e.cardId = cardId)
    (hother : id = cardId →
      ∀ e ∈ events, [CardEventType.cancelled].contains e.body.eventType = false) :
    cancellationsOf w'.store id = cancellationsOf w.store id := by
  rw [cancellationsOf_append id hlog habout]
  split_ifs with hid
  · rw [List.filter_eq_nil_iff.mpr fun e he => by rw [hother hid e he]; decide, List.append_nil]
  · rw [List.append_nil]

/-- An accepted operation answers with what its service does. -/
theorem perform_of_ok {α : Type} {result : α → Result} {r : Result}
    {outcome : Except DomainError α × World Store Tick} (h : (respond result outcome).1 = .ok r) :
    ∃ a, outcome = (.ok a, (respond result outcome).2) := by
  obtain ⟨e | a, w'⟩ := outcome
  · cases h
  · exact ⟨a, rfl⟩

theorem unlocated_row {subtree : List Uuid} (h : Unlocated w w' subtree)
    (hcard : card ∈ w.store.cards.rows) :
    card ∈ w'.store.cards.rows ∨ { card with locationId := none } ∈ w'.store.cards.rows := by
  rw [h.cards]
  by_cases hin : card.locationId.any (subtree.contains ·) = true
  · exact .inr (List.mem_map.mpr ⟨card, hcard, if_pos hin⟩)
  · exact .inl (List.mem_map.mpr ⟨card, hcard, if_neg hin⟩)

variable [Platform]

/-- One unit of work that leaves a cancelled card in `done` and does not reopen it. -/
theorem cancelled_effect {op : Operation} (hfound : w.store.cards.find? before.id = some card)
    (h : Cancelled before key w.store card) (heffect : Effect w w' op)
    (hop : ∀ actor raw, op ≠ .card (.reopen actor before.id raw))
    (hkept : (∃ actor, op = .card (.archiveExpired actor)) ∨ KeptInDone w'.store before.id) :
    ∃ next, w'.store.cards.find? before.id = some next ∧ Cancelled before key w'.store next := by
  have hcard : card ∈ w.store.cards.rows := Table.mem_of_find? hfound
  have hof : ∀ {w' : World Store Tick}, w'.store.cards.find? before.id = w.store.cards.find? before.id →
      LanesKept w.store w'.store →
      cancellationsOf w'.store card.id = cancellationsOf w.store card.id →
      ∃ next, w'.store.cards.find? before.id = some next ∧ Cancelled before key w'.store next :=
    fun hsame hlanes hlog => ⟨card, hsame.trans hfound, h.of_lanes hcard hlanes hlog⟩
  cases heffect with
  | untouched he _ =>
    have hcards : w'.store.cards = w.store.cards := he.frame .cards (by decide)
    refine hof (by rw [hcards]) he.lanes ?_
    exact cancellationsOf_same (he.frame .cardEvents (by decide)) _
  | @created _ _ _ _ created _ _ he =>
    have hne : before.id ≠ created.id := by
      intro hid
      have hnone : w.store.cards.find? created.id = none := Table.find?_of_accepts he.accepted
      rw [← hid, hfound] at hnone
      cases hnone
    refine hof ?_ (.of_lanes (he.frame .lanes (by decide))) ?_
    · rw [he.cards]
      exact Table.find?_insert_ne hne.symm
    · refine cancellationsOf_other card.id he.log (by simpa using he.about) fun hid => ?_
      exact absurd (h.id.symm.trans hid) hne
  | @changed op other next events he =>
    have hlanes := he.rewritten.lanes
    by_cases hid : before.id = other.id
    · have hsame : other = card := by
        have hother := he.rewritten.found
        rw [← hid, hfound] at hother
        exact (Option.some.inj hother).symm
      subst hsame
      obtain ⟨lane, hlane, hdone⟩ := h.lane
      have hnext : w'.store.cards.find? before.id = some next := by
        rw [hid]
        exact he.rewritten.find?_self
      have hdoneNext : ∃ lane ∈ w'.store.lanes.rows, lane.id = next.laneId ∧
          lane.boardId = next.boardId ∧ lane.key = doneKey := by
        rcases hkept with ⟨actor, hsweep⟩ | ⟨found, hmem, hlane'⟩
        · cases hsweep
          have hchange := he.change
          generalize events.map (·.body) = bodies at hchange
          cases hchange
          rw [hlanes]
          exact ⟨lane, hlane.1, hlane.2.1, hlane.2.2, hdone⟩
        · rw [hnext] at hmem
          cases hmem
          exact hlane'
      obtain ⟨hwork, hbodies⟩ := sameWork_of_change he.change hlane hdone hlanes hdoneNext
        fun actor raw hreopen => hop actor raw (by rw [hreopen, hid])
      obtain ⟨lane', hmem, hlaneId, hboard, hkey⟩ := hdoneNext
      refine ⟨next, hnext, h.frame hwork.id hwork.boardId ⟨lane', ⟨hmem, hlaneId, hboard⟩, hkey⟩
        hwork.resolution hwork.workStartedAt hwork.waitingReason hwork.expectedResumeAt ?_⟩
      refine cancellationsOf_other _ he.rewritten.log he.rewritten.about fun _ e hevent => ?_
      exact hbodies e.body (List.mem_map.mpr ⟨e, hevent, rfl⟩)
    · refine hof (he.rewritten.find?_ne hid) (.of_lanes hlanes) ?_
      refine cancellationsOf_other _ he.rewritten.log he.rewritten.about fun hother => ?_
      exact absurd (h.id.symm.trans hother) hid
  | @discarded _ cardId _ _ _ he =>
    have hne : before.id ≠ cardId := by
      rintro rfl
      rcases hkept with ⟨_, hsweep⟩ | ⟨found, hmem, -⟩
      · cases hsweep
      · rw [find?_discarded_self he] at hmem
        cases hmem
    refine hof (find?_discarded he hne) (.of_lanes he.lanes) ?_
    rw [h.id, cancellationsOf_eq, cancellationsOf_eq, eventsOf_discarded he hne]
  | alerted he =>
    have hlog := cancellationsOf_same (he.frame .cardEvents (by decide)) card.id
    have hlanes : LanesKept w.store w'.store := .of_lanes (he.frame .lanes (by decide))
    rcases he.cards before.id with hsame | ⟨marked, nowIso, hmarked, -, -, hnext⟩
    · exact hof hsame hlanes hlog
    · rw [hfound] at hmarked
      cases hmarked
      obtain ⟨lane, hlane, hdone⟩ := h.lane
      obtain ⟨lane', hlane', hkey⟩ := hlanes card hcard lane hlane
      exact ⟨_, hnext, h.frame rfl rfl ⟨lane', hlane', hkey.trans hdone⟩ rfl rfl rfl rfl hlog⟩
  | noted he =>
    refine hof (by rw [show w'.store.cards = w.store.cards from he.frame .cards (by decide)])
      (.of_lanes (he.frame .lanes (by decide))) ?_
    refine cancellationsOf_other card.id he.log (by simpa using he.about) fun _ e hevent => ?_
    rw [List.mem_singleton.mp hevent]
    exact not_cancelled_of_onThread he.thread
  | related _ _ he | unrelated _ he =>
    refine hof (by rw [he.store]) (.of_lanes (by rw [he.store])) ?_
    exact cancellationsOf_same (by rw [he.store]) _
  | unlocated _ _ he =>
    have hlog := cancellationsOf_same (he.frame .cardEvents (by decide) (by decide)) card.id
    have hlanes : LanesKept w.store w'.store := .of_lanes (he.frame .lanes (by decide) (by decide))
    obtain ⟨lane, hlane, hdone⟩ := h.lane
    obtain ⟨lane', hlane', hkey⟩ := hlanes card hcard lane hlane
    rcases unlocated_row he hcard with hmem | hmem
    · exact ⟨_, Table.find?_eq_some_iff.mpr ⟨hmem, h.id⟩, h.of_lanes hcard hlanes hlog⟩
    · refine ⟨_, Table.find?_eq_some_iff.mpr ⟨hmem, h.id⟩, ?_⟩
      exact h.frame rfl rfl ⟨lane', hlane', hkey.trans hdone⟩ rfl rfl rfl rfl hlog

/-- A rejected reopen leaves the store as it was. -/
theorem store_of_reopen_error {actor : Actor} {cardId : ℕ} {raw : VersionInput} {e : DomainError}
    (h : ((Operation.card (.reopen actor cardId raw)).perform w).1 = .error e) :
    (step w (.card (.reopen actor cardId raw))).store = w.store := by
  simp only [step, Operation.perform, CardOperation.perform, respond] at h ⊢
  generalize houtcome : (CardService.reopen actor cardId raw).perform w = outcome at h ⊢
  rcases attempt_cases houtcome with ⟨_, -, hstore, -⟩ | ⟨_, _, a, _, hok, -⟩
  · exact hstore
  · rw [hok] at h
    cases h

/-- A cancelled card stays so while it stays in `done`. -/
theorem cancelled_step {op : Operation} (hfound : w.store.cards.find? before.id = some card)
    (h : Cancelled before key w.store card) (hop : StaysDone before.id w op) :
    ∃ next, (step w op).store.cards.find? before.id = some next ∧
      Cancelled before key (step w op).store next := by
  obtain ⟨hkept, hreopen⟩ := hop
  by_cases hsweep : ∃ actor, op = .card (.archiveExpired actor)
  · obtain ⟨actor, rfl⟩ := hsweep
    refine step_induction
      (I := fun w => ∃ next, w.store.cards.find? before.id = some next ∧
        Cancelled before key w.store next)
      (P := fun _ op => op = .card (.archiveExpired actor)) (fun _ _ _ _ hop => hop)
      (fun _ _ _ hop => hop) ?_ ⟨card, hfound, h⟩ rfl
    rintro w₁ w₂ _ ⟨card₁, hfound₁, h₁⟩ rfl heffect
    refine cancelled_effect hfound₁ h₁ heffect (fun _ _ hop => ?_) (.inl ⟨actor, rfl⟩)
    cases hop
  · by_cases hthis : ∃ actor raw, op = .card (.reopen actor before.id raw)
    · obtain ⟨actor, raw, rfl⟩ := hthis
      obtain ⟨e, herror⟩ := hreopen actor raw rfl
      rw [store_of_reopen_error herror]
      exact ⟨card, hfound, h⟩
    · push Not at hsweep hthis
      obtain ⟨w₁, hstore, heffect⟩ := step_effect (w := w) hsweep
      rw [← hstore] at hfound h
      exact cancelled_effect hfound h heffect hthis (.inr hkept)

theorem cancelled_run {ops : List Operation} (hfound : w.store.cards.find? before.id = some card)
    (h : Cancelled before key w.store card) (hops : RunsUnder (StaysDone before.id) w ops) :
    ∃ next, (run w ops).store.cards.find? before.id = some next ∧
      Cancelled before key (run w ops).store next :=
  run_induction
    (I := fun w => ∃ next, w.store.cards.find? before.id = some next ∧
      Cancelled before key w.store next)
    (fun _ _ ⟨_, hfound, h⟩ hop => cancelled_step hfound h hop) ops w ⟨card, hfound, h⟩ hops

/-- An accepted cancellation makes of a row its cancelled one. -/
theorem cancelled_of_cancel {actor : Actor} {raw : CancelCardInput} {lane : Lane} {r : Result}
    (hfound : w.store.cards.find? before.id = some before) (hlane : LaneOf w.store before lane)
    (haccepted : ((Operation.card (.cancel actor before.id raw)).perform w).1 = .ok r) :
    ∃ card, (step w (.card (.cancel actor before.id raw))).store.cards.find? before.id = some card ∧
      Cancelled before lane.key (step w (.card (.cancel actor before.id raw))).store card := by
  obtain ⟨a, houtcome⟩ := perform_of_ok haccepted
  change _ = (Except.ok a, step w (.card (.cancel actor before.id raw))) at houtcome
  generalize step w (.card (.cancel actor before.id raw)) = w' at houtcome ⊢
  obtain ⟨w₁, hdrew, hbody⟩ := perform_retry houtcome
  obtain ⟨input, hparse, hrest⟩ := runs_parse_iff.mp hbody
  obtain ⟨card, event, hchanged⟩ := runs_cancelBody hparse hrest
  rw [← hdrew.store] at hfound hlane
  have hchange := hchanged.change
  have hr := hchanged.rewritten
  generalize hbodies : [event].map (·.body) = bodies at hchange
  cases hchange with
  | @cancelled _ _ _ input _ fromLane done position updatedAt _ hcard _ _ hof _ hto _ =>
    rw [hfound] at hcard
    obtain rfl := Option.some.inj hcard
    obtain rfl := LaneOf.unique hlane hof
    obtain ⟨hmem, hboard, hkey⟩ := laneWithKey_mem hto
    have hbody : event.body = .cancelled (cancellationOf before lane input.resolution) := by
      simpa using hbodies
    refine ⟨_, hr.find?_self, ?_⟩
    have hlanes := hr.lanes
    exact {
      id := rfl
      boardId := rfl
      lane := ⟨done, ⟨by rwa [hlanes], rfl, hboard⟩, hkey⟩
      resolution := ⟨input.resolution, rfl⟩
      workStartedAt := rfl
      idle := ⟨rfl, rfl⟩
      log := by
        refine ⟨cancellationsOf w₁.store before.id, event,
          cancellationOf before lane input.resolution, ?_, ?_, rfl, rfl, ?_⟩
        · rw [cancellationsOf_append _ hr.log hr.about, if_pos rfl]
          simp [hbody, CardEventBody.eventType]
        · rw [hbody]
          rfl
        · intro hsome
          exact if_pos hsome }

section reopening

variable {actor : Actor} {raw input : VersionInput} {s : Store}

/-- A reopened card goes after the last one of its lane. -/
theorem runs_reopenBody_position {cardId : ℕ} {r : Card}
    (h : Runs (reopenBody actor cardId input) w r w') :
    ∃ card target, w.store.cards.find? cardId = some card ∧
      reopenLane w.store card = some target ∧ r.laneId = target.id ∧
      Platform.generateKeyBetween
        ((CardRepository.laneRows w.store target.id).getLast?.map (·.position)) none =
          .ok r.position := by
  simp only [reopenBody, runs_bind_iff, runs_ensure_iff, runs_decidePolicy_iff,
    runs_ensureVersion_iff, runs_lastCancellation_iff, runs_restoredLane_iff,
    runs_reopenTarget_iff, runs_clockNow_iff] at h
  obtain ⟨card, _, hcard, fromLane, _, hfrom, _, _, ⟨hdone, rfl⟩, policy, _, hpolicy, _, _,
    ⟨-, rfl⟩, _, _, ⟨hversion, rfl⟩, _, _, ⟨rfl, rfl⟩, _, _, ⟨rfl, rfl⟩, target, _, ⟨htarget, rfl⟩,
    bottom, _, hbottom, position, w₀, hposition, _, _, ⟨rfl, rfl⟩, hwrite⟩ := h
  obtain ⟨rfl, hfound⟩ := runs_accessibleCard hcard
  obtain ⟨rfl, -⟩ := runs_laneOfCard hfrom
  obtain rfl := runs_activePolicy hpolicy
  obtain ⟨rfl, rfl⟩ := runs_read_iff.mp hbottom
  obtain ⟨hkey, rfl⟩ := runs_ofExcept_iff.mp hposition
  have hid : card.id = cardId := Table.find?_key hfound
  obtain ⟨rfl, -⟩ := runs_writeWithEvent hwrite (.tick w₀) (by rwa [hid]) rfl
  refine ⟨card, target, hfound, htarget, rfl, ?_⟩
  change Platform.generateKeyBetween _ none = .ok position
  revert hkey
  cases Platform.generateKeyBetween
    ((CardRepository.laneRows w₀.store target.id).getLast?.map (·.position)) none with
  | error message =>
    intro hkey
    cases hkey
  | ok key =>
    intro hkey
    exact congrArg Except.ok (Except.ok.inj hkey)

/-- Every other card of the lane of a card comes before it. -/
def LastInLane (s : Store) (card : Card) : Prop :=
  ∀ other ∈ s.cards.rows, other.laneId = card.laneId → other.id ≠ card.id →
    other.position < card.position

/-- A key after another one is greater, as order keys are. -/
def KeysAscend : Prop :=
  ∀ a key, Platform.generateKeyBetween (some a) none = .ok key → a < key

/-- The card is back in a lane with the key, as the row before, at the end of that lane. -/
structure WorkRestored (s : Store) (before : Card) (key : LaneKey) (card : Card) : Prop where
  lane : ∃ lane, LaneOf s card lane ∧ lane.key = key
  last : LastInLane s card
  workStartedAt : card.workStartedAt = before.workStartedAt
  waitingReason : card.waitingReason = before.waitingReason
  expectedResumeAt : card.expectedResumeAt = before.expectedResumeAt
  resolution : card.resolution = none
  archivedAt : card.archivedAt = none

/-- A key generated after the last one of a lane comes after all of them. -/
theorem position_lt_of_last {laneId : Uuid} {position : String} (hkeys : KeysAscend)
    (hposition : Platform.generateKeyBetween
      ((CardRepository.laneRows s laneId).getLast?.map (·.position)) none = .ok position) :
    ∀ other ∈ s.cards.rows, other.laneId = laneId → other.position < position := by
  intro other hother hlane
  have hmem : other ∈ CardRepository.laneRows s laneId := by
    simp [CardRepository.laneRows, hother, hlane]
  have hsorted : (CardRepository.laneRows s laneId).Pairwise fun a b => a.position ≤ b.position :=
    pairwise_ascendingBy (fun c : Card => c.position) _
  rcases List.eq_nil_or_concat' (CardRepository.laneRows s laneId) with hnil | ⟨rows, bottom, hrows⟩
  · rw [hnil] at hmem
    cases hmem
  · rw [hrows] at hmem hsorted hposition
    have hlt : bottom.position < position := hkeys _ _ (by simpa using hposition)
    rcases List.mem_append.mp hmem with hold | hlast
    · exact Std.lt_of_le_of_lt ((List.pairwise_append.mp hsorted).2.2 other hold bottom (by simp)) hlt
    · rwa [List.mem_singleton.mp hlast]

/-- An accepted reopen of a cancelled card whose lane is still there restores its work. -/
theorem restored_of_reopen {cardId : ℕ} {r : Result} (hkeys : KeysAscend)
    (hfound : w.store.cards.find? cardId = some card) (h : Cancelled before key w.store card)
    (hidle : key ≠ waitingKey → before.waitingReason = none ∧ before.expectedResumeAt = none)
    (horder : AppendOrdered (eventsOf w.store cardId))
    (hthere : ∃ lane ∈ w.store.lanes.rows, lane.boardId = before.boardId ∧ lane.key = key)
    (hwaits : key = waitingKey → before.waitingReason ≠ none)
    (haccepted : ((Operation.card (.reopen actor cardId raw)).perform w).1 = .ok r) :
    ∃ next, (step w (.card (.reopen actor cardId raw))).store.cards.find? cardId = some next ∧
      WorkRestored (step w (.card (.reopen actor cardId raw))).store before key next := by
  obtain ⟨a, houtcome⟩ := perform_of_ok haccepted
  change _ = (Except.ok a, step w (.card (.reopen actor cardId raw))) at houtcome
  generalize step w (.card (.reopen actor cardId raw)) = w' at houtcome ⊢
  obtain ⟨w₁, hdrew, hbody⟩ := perform_retry houtcome
  obtain ⟨input, hparse, hrest⟩ := runs_parse_iff.mp hbody
  obtain ⟨found, event, hchanged⟩ := runs_reopenBody hparse hrest
  obtain ⟨found', target, hfound', hto, hlaneId, hposition⟩ := runs_reopenBody_position hrest
  rw [← hdrew.store] at hfound h horder hthere
  have hid : card.id = cardId := Table.find?_key hfound
  rw [hfound] at hfound'
  obtain rfl := Option.some.inj hfound'
  obtain ⟨payload, hstored, hfrom, hreason, hday⟩ := h.storedCancellation (hid.symm ▸ horder)
  have hprior : priorLaneKey (storedCancellation w₁.store card) = some key := by
    rw [hstored, priorLaneKey, Option.bind_some, hfrom, hreason, if_neg]
    rintro ⟨hkey, hnone⟩
    exact hwaits hkey hnone
  obtain ⟨lane, hrestore⟩ : ∃ lane, laneToRestore w₁.store card = some lane := by
    rw [laneToRestore, hprior, Option.bind_some]
    refine Option.isSome_iff_exists.mp (List.find?_isSome.mpr ?_)
    obtain ⟨lane, hmem, hboard, hkey⟩ := hthere
    exact ⟨lane, hmem, by simp [hboard, h.boardId, hkey]⟩
  obtain ⟨hmem, hboard, hkey⟩ : lane ∈ w₁.store.lanes.rows ∧ lane.boardId = card.boardId ∧
      lane.key = key := by
    rw [laneToRestore, hprior, Option.bind_some] at hrestore
    exact laneWithKey_mem hrestore
  have hreturns : reopenLane w₁.store card = some lane := by
    rw [reopenLane, hrestore]
    rfl
  obtain rfl := Option.some.inj (hto.symm.trans hreturns)
  have hr := hchanged.rewritten
  have hchange := hchanged.change
  generalize [event].map (·.body) = bodies at hchange
  cases hchange with
  | @reopened _ _ _ _ _ fromLane other position updatedAt _ hcard _ hof hdone hto' _ =>
    rw [hfound] at hcard
    obtain rfl := Option.some.inj hcard
    obtain rfl := Option.some.inj (hto'.symm.trans hto)
    have hlanes := hr.lanes
    have hnext := hr.find?_self
    rw [hid] at hnext
    refine ⟨_, hnext, ?_⟩
    exact {
      lane := ⟨other, ⟨by rwa [hlanes], rfl, hboard⟩, hkey⟩
      last := by
        intro sibling hsibling hsame hne
        rcases hr.mem_cards hsibling with rfl | ⟨hold, -⟩
        · exact absurd rfl hne
        · exact position_lt_of_last hkeys hposition sibling hold hsame
      workStartedAt := by
        rw [hrestore]
        exact h.workStartedAt
      waitingReason := by
        by_cases hwaiting : key = waitingKey
        · simp [reopenedCard, hrestore, hstored, hkey, hwaiting, hreason]
        · simp [reopenedCard, hkey, hwaiting, h.idle.1, (hidle hwaiting).1]
      expectedResumeAt := by
        by_cases hwaiting : key = waitingKey
        · simp [reopenedCard, hrestore, hstored, hkey, hwaiting,
            hday (Option.ne_none_iff_isSome.mp (hwaits hwaiting))]
        · simp [reopenedCard, hkey, hwaiting, h.idle.2, (hidle hwaiting).2]
      resolution := rfl
      archivedAt := rfl }

end reopening

/-- A reopen takes a cancelled card that stayed in `done` back to the lane it was cancelled out
of, to its end and with the work and waiting it had, while the lane is there and, for the
waiting lane, while there was a reason to wait. -/
theorem reopen_undoes_cancel (hkeys : KeysAscend) (inputs : ℕ → Tick) (ops ops' : List Operation)
    (before : Card) (lane : Lane) (actor actor' : Actor) (raw : CancelCardInput)
    (raw' : VersionInput) (r r' : Result) (hw : w = run (freshlySeeded inputs) ops)
    (hw' : w' = run (step w (.card (.cancel actor before.id raw))) ops')
    (hfound : w.store.cards.find? before.id = some before) (hlane : LaneOf w.store before lane)
    (hcancel : ((Operation.card (.cancel actor before.id raw)).perform w).1 = .ok r)
    (hkept : RunsUnder (StaysDone before.id) (step w (.card (.cancel actor before.id raw))) ops')
    (horder : AppendOrdered (eventsOf w'.store before.id))
    (hthere : ∃ kept ∈ w'.store.lanes.rows, kept.boardId = before.boardId ∧ kept.key = lane.key)
    (hwaits : lane.key = waitingKey → before.waitingReason ≠ none)
    (hreopen : ((Operation.card (.reopen actor' before.id raw')).perform w').1 = .ok r') :
    ∃ card, (step w' (.card (.reopen actor' before.id raw'))).store.cards.find? before.id = some card ∧
      WorkRestored (step w' (.card (.reopen actor' before.id raw'))).store before lane.key card := by
  have hidle : idleRule lane.key before := by
    subst hw
    exact (placed_idle inputs ops).rule_of (Table.mem_of_find? hfound) hlane
  obtain ⟨card, hcard, hcancelled⟩ := cancelled_of_cancel hfound hlane hcancel
  obtain ⟨kept, hkeptCard, hkeptCancelled⟩ := cancelled_run hcard hcancelled hkept
  rw [← hw'] at hkeptCard hkeptCancelled
  exact restored_of_reopen hkeys hkeptCard hkeptCancelled hidle horder hthere hwaits hreopen

end runs

instance (s : Store) (cardId : ℕ) : Decidable (KeptInDone s cardId) :=
  inferInstanceAs (Decidable (∃ card ∈ s.cards.find? cardId, _))

instance (log : List CardEvent) : Decidable (AppendOrdered log) :=
  inferInstanceAs (Decidable (log.Pairwise _))

theorem keysAscend_sample : @KeysAscend samplePlatform := by
  intro a key h
  change sampleKeyBetween (some a) none = .ok key at h
  unfold sampleKeyBetween at h
  split at h <;> cases h
  all_goals
    next heq _ => cases heq <;> decide +kernel

/-- A waiting card, as it is before it is cancelled. -/
def toWaiting : List Operation :=
  [.card (.create ⟨101, 102, .sqlite⟩ sampleActor { title := "Pump" } {}),
    .card (.move sampleActor 1 ⟨"waiting_parts_vendor", none, none, some "parts", some 20000, 1⟩)]

/-- What happens to it in `done`. -/
def whileDone : List Operation :=
  [.card (.block sampleActor 1 ⟨"lost", 3⟩), .card (.archive sampleActor 1 ⟨4⟩)]

/-- The cancellation and what happens in `done` after it. -/
def cancelledWorld : World Store Tick :=
  @run samplePlatform (@step samplePlatform (@run samplePlatform (freshlySeeded sampleTicks) toWaiting)
    (.card (.cancel sampleActor 1 ⟨.declined, 2⟩))) whileDone

/-- The waiting card, cancelled, blocked, archived and reopened. -/
theorem reopen_undoes_cancel_waiting : ∃ (before card : Card) (lane : Lane),
    before.waitingReason = some "parts" ∧ lane.key = waitingKey ∧
      WorkRestored (@step samplePlatform cancelledWorld (.card (.reopen sampleActor 1 ⟨5⟩))).store
        before lane.key card := by
  have hfound :
      ∃ before ∈ (@run samplePlatform (freshlySeeded sampleTicks) toWaiting).store.cards.find? 1,
        ∃ lane ∈ (@run samplePlatform (freshlySeeded sampleTicks) toWaiting).store.lanes.rows,
          before.waitingReason = some "parts" ∧ lane.id = before.laneId ∧
            lane.boardId = before.boardId ∧ before.boardId = 101 ∧ lane.key = waitingKey := by
    decide +kernel
  obtain ⟨before, hbefore, lane, hmem, hreason, hid, hboard, hboardId, hkey⟩ := hfound
  have hidOne : before.id = 1 := Table.find?_key hbefore
  have hcancel : ∃ r, (@Operation.perform samplePlatform
      (@run samplePlatform (freshlySeeded sampleTicks) toWaiting)
        (.card (.cancel sampleActor before.id ⟨.declined, 2⟩))).1 = .ok r := by
    rw [hidOne]
    exact exists_ok (by decide +kernel)
  have hreopen : ∃ r, (@Operation.perform samplePlatform cancelledWorld
      (.card (.reopen sampleActor before.id ⟨5⟩))).1 = .ok r := by
    rw [hidOne]
    exact exists_ok (by decide +kernel)
  obtain ⟨r, hcancel⟩ := hcancel
  obtain ⟨r', hreopen⟩ := hreopen
  have hkept : @RunsUnder samplePlatform (@StaysDone samplePlatform before.id)
      (@step samplePlatform (@run samplePlatform (freshlySeeded sampleTicks) toWaiting)
        (.card (.cancel sampleActor before.id ⟨.declined, 2⟩))) whileDone := by
    rw [hidOne]
    refine ⟨⟨?_, fun _ _ h => nomatch h⟩, ⟨?_, fun _ _ h => nomatch h⟩, trivial⟩
    · decide +kernel
    · decide +kernel
  obtain ⟨card, -, hrestored⟩ := @reopen_undoes_cancel _ cancelledWorld samplePlatform
    keysAscend_sample sampleTicks toWaiting whileDone before lane sampleActor sampleActor
    ⟨.declined, 2⟩ ⟨5⟩ r r' rfl (by rw [hidOne, cancelledWorld]) (by rw [hidOne]; exact hbefore)
    ⟨hmem, hid, hboard⟩ hcancel hkept (by rw [hidOne]; decide +kernel)
    (by rw [hboardId, hkey]; decide +kernel) (fun _ => by rw [hreason]; decide) hreopen
  rw [hidOne] at hrestored
  exact ⟨before, card, lane, hreason, hkey, hrestored⟩

end AiKanban.Invariants
