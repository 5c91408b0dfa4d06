import Mathlib.Data.Finset.Basic
import AiKanban.EventSourcing.Projection
import AiKanban.Invariants.Dossier
import AiKanban.Invariants.Placement

/-!
# What the log of a card says of it

A view is folded from a card's events alone. The waiting fields are only known as long as
the log carries them: the event of a move into the waiting lane does not, the one of a
cancellation does.
-/
namespace AiKanban.Invariants

open Domain Db Relational Services Services.CardService Transactions Effects EventSourcing
open Application

/-- What is folded from the events of a card. -/
structure CardView where
  title : String
  description : String
  priority : Priority
  estimateMinutes : Option ℕ
  assigneeId : Option Uuid
  locationId : Option Uuid
  tags : Finset String
  lane : LaneKey
  resolution : Option Resolution
  archived : Bool
  blocked : Bool
  blockedReason : Option String
  waitingReason : Option (Option WaitingReason)
  expectedResumeAt : Option (Option Day)
  cancellations : List CardEvent
  deriving DecidableEq

/-- The view of a creation in a lane of the given key. -/
def CardView.start (lane : LaneKey) (snapshot : CardSnapshot) : CardView where
  title := snapshot.card.title
  description := snapshot.card.description
  priority := snapshot.card.priority
  estimateMinutes := snapshot.card.estimateMinutes
  assigneeId := snapshot.card.assigneeId
  locationId := snapshot.card.locationId
  tags := snapshot.tags.toFinset
  lane := lane
  resolution := snapshot.card.resolution
  archived := snapshot.card.archivedAt.isSome
  blocked := snapshot.card.blocked
  blockedReason := snapshot.card.blockedReason
  waitingReason := some snapshot.card.waitingReason
  expectedResumeAt := some snapshot.card.expectedResumeAt
  cancellations := []

/-- A changed field has its new value. -/
def CardView.edit (v : CardView) : FieldChange → CardView
  | .title _ after => { v with title := after }
  | .description _ after => { v with description := after }
  | .priority _ after => { v with priority := after }
  | .estimateMinutes _ after => { v with estimateMinutes := after }
  | .assigneeId _ after => { v with assigneeId := after }
  | .locationId _ after => { v with locationId := after }
  | .tags _ after => { v with tags := after.toFinset }
  | .waitingReason _ after => { v with waitingReason := some after }
  | .expectedResumeAt _ after => { v with expectedResumeAt := some after }

/-- The recorded old value is the one the view has, as far as the view knows it. -/
def CardView.Agrees (v : CardView) : FieldChange → Prop
  | .title before _ => before = v.title
  | .description before _ => before = v.description
  | .priority before _ => before = v.priority
  | .estimateMinutes before _ => before = v.estimateMinutes
  | .assigneeId before _ => before = v.assigneeId
  | .locationId before _ => before = v.locationId
  | .tags before _ => before.toFinset = v.tags
  | .waitingReason before _ => ∀ known, v.waitingReason = some known → before = known
  | .expectedResumeAt before _ => ∀ known, v.expectedResumeAt = some known → before = known

/-- The newest cancellation, while the resolution is a cancel one. -/
def CardView.lastCancellation (v : CardView) : Option Cancellation :=
  if v.resolution = none ∨ v.resolution = some .completed then none
  else (newestFirst (·.createdAt) (·.id) v.cancellations).head?.bind (·.body.cancellation?)

/-- The waiting state a reopen into a lane brings back. -/
def CardView.restored (v : CardView) (toLane : LaneKey) : Option Cancellation :=
  if toLane = waitingKey then
    v.lastCancellation.filter fun p => p.fromLane = waitingKey ∧ p.waitingReason ≠ none
  else none

def CardView.apply (v : CardView) (e : CardEvent) : CardView :=
  match e.body with
  | .fieldChanged change => v.edit change
  | .statusChanged payload => { v with
      lane := payload.toLane
      resolution := if payload.toLane = doneKey then some .completed else none
      waitingReason := if payload.toLane = waitingKey then none else some none
      expectedResumeAt := if payload.toLane = waitingKey then none else some none }
  | .cancelled payload => { v with
      lane := doneKey
      resolution := some payload.resolution.toResolution
      waitingReason := some none
      expectedResumeAt := some none
      cancellations := v.cancellations ++ [e] }
  | .reopened toLane => { v with
      lane := toLane
      resolution := none
      archived := false
      waitingReason := some ((v.restored toLane).bind (·.waitingReason))
      expectedResumeAt := some ((v.restored toLane).bind (·.expectedResumeAt)) }
  | .archived => { v with archived := true }
  | .blocked reason => { v with blocked := true, blockedReason := reason }
  | .unblocked _ => { v with blocked := false, blockedReason := none }
  | _ => v

/-- An event fits when the state it says it changes is the view's. -/
def CardView.Fits (v : CardView) (e : CardEvent) : Prop :=
  match e.body with
  | .fieldChanged change => v.Agrees change
  | .statusChanged payload => payload.fromLane = v.lane
  | .cancelled payload => payload.fromLane = v.lane
  | _ => True

/-- The audit trail of a card as a projection. -/
def trail : Projection CardEvent CardView := ⟨CardView.apply, CardView.Fits⟩

/-- The part of it that edits make. -/
def edits : Projection FieldChange CardView := ⟨CardView.edit, CardView.Agrees⟩

/-- The stored card is as the view says. -/
structure Shows (s : Store) (card : Card) (v : CardView) : Prop where
  title : v.title = card.title
  description : v.description = card.description
  priority : v.priority = card.priority
  estimateMinutes : v.estimateMinutes = card.estimateMinutes
  assigneeId : v.assigneeId = card.assigneeId
  locationId : v.locationId = card.locationId
  tags : v.tags = (tagNames s card.id).toFinset
  lane : ∃ lane, LaneOf s card lane ∧ lane.key = v.lane
  resolution : v.resolution = card.resolution
  archived : v.archived = card.archivedAt.isSome
  blocked : v.blocked = card.blocked
  blockedReason : v.blockedReason = card.blockedReason
  waitingReason : ∀ known, v.waitingReason = some known → card.waitingReason = known
  expectedResumeAt : ∀ known, v.expectedResumeAt = some known → card.expectedResumeAt = known

/-- The log's cancellations of a card, in append order. -/
def cancellationsOf (s : Store) (cardId : ℕ) : List CardEvent :=
  s.cardEvents.rows.filter fun e =>
    e.cardId == cardId && [CardEventType.cancelled].contains e.body.eventType

/-- The view shows the card, and the card is open outside `done` and waits for nothing
outside the waiting lane. -/
structure Tracks (s : Store) (card : Card) (v : CardView) : Prop extends Shows s card v where
  cancellations : v.cancellations = cancellationsOf s card.id
  opened : v.lane ≠ doneKey → card.resolution = none
  waiting : v.lane ≠ waitingKey → card.waitingReason = none ∧ card.expectedResumeAt = none

section edits

/-- The events of an edit make of a view what its changes make of it. -/
theorem trail_of_edits {v v' : CardView} {events : List CardEvent} {changes : List FieldChange}
    (hbodies : events.map (·.body) = changes.map .fieldChanged) (h : edits.Reads v changes v') :
    trail.Reads v events v' := by
  have hof : List.Forall₂ (fun (change : FieldChange) (e : CardEvent) =>
      CardEventBody.fieldChanged change = e.body) changes events := by
    have heq : List.Forall₂ Eq (changes.map .fieldChanged) (events.map (·.body)) := by
      rw [hbodies]
      exact List.forall₂_same.mpr fun _ _ => rfl
    exact List.forall₂_map_right_iff.mp (List.forall₂_map_left_iff.mp heq)
  refine Projection.Reads.of_map hof (fun {change e} hbody v => ?_) h
  change v.apply e = v.edit change ∧ (v.Agrees change → v.Fits e)
  unfold CardView.apply CardView.Fits
  rw [← hbody]
  exact ⟨rfl, id⟩

/-- The change of one field sets it on the view. -/
theorem edits_change? {α : Type} [DecidableEq α] (v : CardView) (input : Option α) {current : α}
    (change : α → α → FieldChange) (set : α → CardView → CardView)
    (hedit : ∀ before after, v.edit (change before after) = set after v)
    (hagrees : ∀ after, v.Agrees (change current after)) (hset : set current v = v) :
    edits.Reads v (change? input current change) (set (input.getD current) v) := by
  cases input with
  | none =>
    rw [Option.getD_none, hset]
    exact .nil v
  | some value =>
    by_cases hv : value = current
    · rw [hv, change?_same, Option.getD_some, hset]
      exact .nil v
    · rw [change?_ne hv, Option.getD_some, ← hedit current value]
      exact .single (hagrees value)

/-- A field the view may not know is known after its change, and else as much as before. -/
theorem edits_known {α : Type} [DecidableEq α] (v : CardView) (input : Option α)
    {current : Option α} (change : Option α → Option α → FieldChange) {known : Option (Option α)}
    (set : Option (Option α) → CardView → CardView)
    (hedit : ∀ before after, v.edit (change before after) = set (some after) v)
    (hagrees : ∀ after, v.Agrees (change current after)) (hset : set known v = v)
    (hknown : ∀ value, known = some value → current = value) :
    ∃ known', edits.Reads v (change? (input.map some) current change) (set known' v) ∧
      ∀ value, known' = some value → (input.map some).getD current = value := by
  have hsame : edits.Reads v [] (set known v) := by
    rw [hset]
    exact .nil v
  cases input with
  | none => exact ⟨known, hsame, hknown⟩
  | some value =>
    rw [Option.map_some]
    by_cases hv : some value = current
    · rw [← hv, change?_same]
      exact ⟨known, hsame, fun known' h => hv.trans (hknown known' h)⟩
    · rw [change?_ne hv]
      refine ⟨some (some value), ?_, fun _ h => Option.some.inj h⟩
      rw [← hedit current]
      exact .single (hagrees _)

variable {s s' : Store} {card : Card} {v : CardView}

theorem edits_rowChanges (h : Shows s card v) (input : UpdateCardInput) :
    edits.Reads v (rowChanges card input) { v with
      title := input.title.getD card.title
      description := input.description.getD card.description
      priority := input.priority.getD card.priority
      estimateMinutes := input.estimateMinutes.getD card.estimateMinutes
      assigneeId := input.assigneeId.getD card.assigneeId
      locationId := input.locationId.getD card.locationId } := by
  have h₁ := edits_change? v input.title .title (fun title v => { v with title })
    (fun _ _ => rfl) (fun _ => h.title.symm) (by rw [← h.title])
  have h₂ := h₁.append (edits_change? _ input.description .description
    (fun description v => { v with description })
    (fun _ _ => rfl) (fun _ => h.description.symm) (by rw [← h.description]))
  have h₃ := h₂.append (edits_change? _ input.priority .priority
    (fun priority v => { v with priority })
    (fun _ _ => rfl) (fun _ => h.priority.symm) (by rw [← h.priority]))
  have h₄ := h₃.append (edits_change? _ input.estimateMinutes .estimateMinutes
    (fun estimateMinutes v => { v with estimateMinutes })
    (fun _ _ => rfl) (fun _ => h.estimateMinutes.symm) (by rw [← h.estimateMinutes]))
  have h₅ := h₄.append (edits_change? _ input.assigneeId .assigneeId
    (fun assigneeId v => { v with assigneeId })
    (fun _ _ => rfl) (fun _ => h.assigneeId.symm) (by rw [← h.assigneeId]))
  exact h₅.append (edits_change? _ input.locationId .locationId
    (fun locationId v => { v with locationId })
    (fun _ _ => rfl) (fun _ => h.locationId.symm) (by rw [← h.locationId]))

/-- The change an edit of the tags records leads to the stored tags. -/
theorem edits_tagChange {change : List FieldChange} (hknown : TagsKnown s)
    (h : TagEdit s s' card.id change) (htags : v.tags = (tagNames s card.id).toFinset) :
    edits.Reads v change { v with tags := (tagNames s' card.id).toFinset } := by
  cases h with
  | kept hgrow hsame =>
    rw [TagEdit.tagNames_eq (.kept hgrow hsame) hknown, ← htags]
    exact .nil v
  | @replaced tags hretagged =>
    have hnames : (tagNames s' card.id).toFinset = (tags.map (·.name)).toFinset := by
      ext name
      rw [List.mem_toFinset, List.mem_toFinset, hretagged.mem_tagNames]
    rw [hnames]
    exact .single htags.symm

theorem edits_waitingChanges {v₀ : CardView} {before : List FieldChange}
    (hbefore : edits.Reads v₀ before v) (input : UpdateCardInput)
    (hreason : ∀ known, v.waitingReason = some known → card.waitingReason = known)
    (hday : ∀ known, v.expectedResumeAt = some known → card.expectedResumeAt = known) :
    ∃ reason day, edits.Reads v₀ (before ++ waitingChanges card input)
        { v with waitingReason := reason, expectedResumeAt := day } ∧
      (∀ known, reason = some known →
        (input.waitingReason.map some).getD card.waitingReason = known) ∧
      ∀ known, day = some known →
        (input.expectedResumeAt.map some).getD card.expectedResumeAt = known := by
  obtain ⟨reason, hreads₁, hreason'⟩ := edits_known v input.waitingReason .waitingReason
    (fun known v => { v with waitingReason := known }) (fun _ _ => rfl)
    (fun _ known hk => hreason known hk) rfl hreason
  obtain ⟨day, hreads₂, hday'⟩ := edits_known { v with waitingReason := reason }
    input.expectedResumeAt .expectedResumeAt (fun known v => { v with expectedResumeAt := known })
    (fun _ _ => rfl) (fun _ known hk => hday known hk) rfl hday
  exact ⟨reason, day, hbefore.append (hreads₁.append hreads₂), hreason', hday'⟩

/-- The view after all the changes of an edit shows the edited row. -/
theorem shows_edited {input : UpdateCardInput} {change : List FieldChange} {updatedAt : Instant}
    (hknown : TagsKnown s) (h : Shows s card v) (htags : TagEdit s s' card.id change)
    (hlanes : s'.lanes = s.lanes) :
    ∃ v', edits.Reads v (changes card input change) v' ∧
      Shows s' (editedCard card input updatedAt) v' ∧ v'.lane = v.lane ∧
      v'.cancellations = v.cancellations := by
  have hrow := edits_rowChanges h input
  have hrow' := hrow.append (edits_tagChange hknown htags h.tags)
  obtain ⟨reason, day, hreads, hreason, hday⟩ :=
    edits_waitingChanges hrow' input h.waitingReason h.expectedResumeAt
  obtain ⟨lane, hof, hkey⟩ := h.lane
  refine ⟨_, hreads, ?_, rfl, rfl⟩
  exact {
    title := rfl
    description := rfl
    priority := rfl
    estimateMinutes := rfl
    assigneeId := rfl
    locationId := rfl
    tags := rfl
    lane := ⟨lane, LaneOf.of_lanes hof hlanes, hkey⟩
    resolution := h.resolution
    archived := h.archived
    blocked := h.blocked
    blockedReason := h.blockedReason
    waitingReason := hreason
    expectedResumeAt := hday }

end edits

section rewrites

variable {s s' : Store} {card next : Card} {v : CardView}

/-- The parts of a row that only an edit changes. -/
structure SameText (card next : Card) : Prop where
  id : next.id = card.id
  title : next.title = card.title
  description : next.description = card.description
  priority : next.priority = card.priority
  estimateMinutes : next.estimateMinutes = card.estimateMinutes
  assigneeId : next.assigneeId = card.assigneeId
  locationId : next.locationId = card.locationId

theorem sameText_crossLane (fromLane toLane : Lane) (fields : Option WaitingLaneEntry)
    (position : String) (updatedAt startedAt : Instant) :
    SameText card (crossLane card (placedCard card toLane position updatedAt) fromLane toLane fields
      startedAt) := by
  obtain ⟨_, _, _, _, _, hcross⟩ := crossLane_frame card (placedCard card toLane position updatedAt)
    fromLane toLane fields startedAt
  rw [hcross]
  exact ⟨rfl, rfl, rfl, rfl, rfl, rfl, rfl⟩

theorem crossLane_kept (fromLane toLane : Lane) (fields : Option WaitingLaneEntry)
    (position : String) (updatedAt startedAt : Instant) :
    let next := crossLane card (placedCard card toLane position updatedAt) fromLane toLane fields
      startedAt
    next.laneId = toLane.id ∧ next.boardId = card.boardId ∧ next.archivedAt = card.archivedAt ∧
      next.blocked = card.blocked ∧ next.blockedReason = card.blockedReason := by
  obtain ⟨_, _, _, _, _, hcross⟩ := crossLane_frame card (placedCard card toLane position updatedAt)
    fromLane toLane fields startedAt
  intro next
  rw [show next = _ from hcross]
  exact ⟨rfl, rfl, rfl, rfl, rfl⟩

/-- A move completes a card when it takes it to `done`, and else leaves it open. -/
theorem crossLane_resolution {fromLane toLane : Lane} (fields : Option WaitingLaneEntry)
    (position : String) (updatedAt startedAt : Instant) (hother : toLane.key ≠ fromLane.key)
    (hopened : fromLane.key ≠ doneKey → card.resolution = none) :
    (crossLane card (placedCard card toLane position updatedAt) fromLane toLane fields
      startedAt).resolution = if toLane.key = doneKey then some .completed else none := by
  by_cases hto : toLane.key = doneKey
  · have hfrom : fromLane.key ≠ doneKey := fun h => hother (hto.trans h.symm)
    simp only [crossLane, if_neg hfrom, if_pos hto]
  · by_cases hfrom : fromLane.key = doneKey
    · simp only [crossLane, if_pos hfrom, if_neg hto]
    · have hopen := hopened hfrom
      simp only [crossLane, if_neg hfrom, if_neg hto]
      cases fields <;> split_ifs <;> simpa [placedCard] using hopen

/-- A move to any other lane leaves the card waiting for nothing. -/
theorem crossLane_waiting {fromLane toLane : Lane} (position : String)
    (updatedAt startedAt : Instant)
    (hwaiting : fromLane.key ≠ waitingKey → card.waitingReason = none ∧ card.expectedResumeAt = none) :
    (crossLane card (placedCard card toLane position updatedAt) fromLane toLane none
        startedAt).waitingReason = none ∧
      (crossLane card (placedCard card toLane position updatedAt) fromLane toLane none
        startedAt).expectedResumeAt = none := by
  by_cases hfrom : fromLane.key = waitingKey
  · simp only [crossLane, if_pos hfrom]
    constructor <;> split_ifs <;> rfl
  · obtain ⟨hreason, hday⟩ := hwaiting hfrom
    simp only [crossLane, if_neg hfrom]
    constructor <;> split_ifs <;> assumption

/-- A rewrite that is no edit is shown by a view with other flags. -/
theorem Shows.rewrite (h : Shows s card v) (hsame : SameText card next)
    (htags : tagNames s' card.id = tagNames s card.id) {lane : LaneKey}
    {resolution : Option Resolution} {archived blocked : Bool} {reason : Option String}
    {waiting : Option (Option WaitingReason)} {day : Option (Option Day)}
    {cancellations : List CardEvent}
    (hlane : ∃ lane', LaneOf s' next lane' ∧ lane'.key = lane)
    (hresolution : resolution = next.resolution) (harchived : archived = next.archivedAt.isSome)
    (hblocked : blocked = next.blocked ∧ reason = next.blockedReason)
    (hwaiting : ∀ known, waiting = some known → next.waitingReason = known)
    (hday : ∀ known, day = some known → next.expectedResumeAt = known) :
    Shows s' next { v with
      lane, resolution, archived, blocked
      blockedReason := reason
      waitingReason := waiting
      expectedResumeAt := day
      cancellations } where
  title := h.title.trans hsame.title.symm
  description := h.description.trans hsame.description.symm
  priority := h.priority.trans hsame.priority.symm
  estimateMinutes := h.estimateMinutes.trans hsame.estimateMinutes.symm
  assigneeId := h.assigneeId.trans hsame.assigneeId.symm
  locationId := h.locationId.trans hsame.locationId.symm
  tags := by rw [hsame.id, htags, ← h.tags]
  lane := hlane
  resolution := hresolution
  archived := harchived
  blocked := hblocked.1
  blockedReason := hblocked.2
  waitingReason := hwaiting
  expectedResumeAt := hday

theorem cancellationsOf_append {events : List CardEvent} {cardId : ℕ} (id : ℕ)
    (hlog : s'.cardEvents.rows = s.cardEvents.rows ++ events)
    (habout : ∀ e ∈ events, e.cardId = cardId) :
    cancellationsOf s' id = cancellationsOf s id ++ if id = cardId then
      events.filter fun e => [CardEventType.cancelled].contains e.body.eventType else [] := by
  unfold cancellationsOf
  rw [hlog, List.filter_append]
  congr 1
  split_ifs with hid
  · exact List.filter_congr fun e he => by simp [habout e he, hid]
  · exact List.filter_eq_nil_iff.mpr fun e he => by simp [habout e he, Ne.symm hid]

/-- The cancellation a reopen looks up is the one the view ends with. -/
theorem Tracks.lastCancellation (h : Tracks s card v) :
    storedCancellation s card = v.lastCancellation := by
  unfold storedCancellation CardView.lastCancellation EventRepository.latest
  rw [h.resolution, h.cancellations]
  rfl

/-- A waiting state worth restoring is restored whenever the reopen ends in the waiting lane. -/
theorem laneToRestore_ne_none {target : Lane} {payload : Cancellation}
    (hto : reopenLane s card = some target) (hkey : target.key = waitingKey)
    (hstored : storedCancellation s card = some payload) (hfrom : payload.fromLane = waitingKey)
    (hreason : payload.waitingReason ≠ none) : laneToRestore s card ≠ none := by
  intro hnone
  obtain ⟨hmem, hboard⟩ := reopenLane_mem hto
  have hprior : priorLaneKey (storedCancellation s card) = some waitingKey := by
    rw [hstored]
    simp [priorLaneKey, hfrom, hreason]
  rw [laneToRestore, hprior, Option.bind_some] at hnone
  have habsent := List.find?_eq_none.mp hnone target hmem
  simp [hboard, hkey] at habsent

/-- What a reopen brings back to a card that waits for nothing. -/
theorem restored_reopened {target : Lane} (position : String) (updatedAt : Instant)
    (h : Tracks s card v) (hlane : v.lane = doneKey) (hto : reopenLane s card = some target) :
    (reopenedCard card (storedCancellation s card) (laneToRestore s card) target position
        updatedAt).waitingReason = (v.restored target.key).bind (·.waitingReason) ∧
      (reopenedCard card (storedCancellation s card) (laneToRestore s card) target position
        updatedAt).expectedResumeAt = (v.restored target.key).bind (·.expectedResumeAt) := by
  obtain ⟨hreason, hday⟩ := h.waiting (by rw [hlane]; decide)
  by_cases hkey : target.key = waitingKey
  · cases hr : laneToRestore s card with
    | some restored =>
      rcases reopenLane_cases hto with ⟨payload, -, hstored, hfrom, himp⟩ | ⟨hnone, -⟩ | ⟨⟨hnone, -⟩, -⟩
      · have hreturn : v.restored target.key = some payload := by
          have hwaits := himp (hfrom.symm.trans hkey)
          rw [CardView.restored, if_pos hkey, ← h.lastCancellation, hstored]
          simp [← hfrom, hkey, hwaits]
        rw [hreturn, hstored]
        simp [reopenedCard, hkey]
      · rw [hr] at hnone
        cases hnone
      · rw [hr] at hnone
        cases hnone
    | none =>
      have hreturn : v.restored target.key = none := by
        rw [CardView.restored, if_pos hkey, ← h.lastCancellation]
        cases hstored : storedCancellation s card with
        | none => rfl
        | some payload =>
          refine Option.filter_eq_none_iff.mpr fun p hp => ?_
          cases hp
          simp only [decide_eq_true_eq]
          rintro ⟨hfrom, hwaits⟩
          exact laneToRestore_ne_none hto hkey hstored hfrom hwaits hr
      simp [reopenedCard, hreturn, hreason, hday]
  · simp [reopenedCard, CardView.restored, hkey, hreason, hday]

variable {w w' : World Store Tick}

/-- A rewrite in place, told by one event. -/
theorem tracks_inPlace {e : CardEvent} (hknown : TagsKnown w.store)
    (hr : Rewritten w w' card next [e]) (htags : TagEdit w.store w'.store card.id [])
    (hv : Tracks w.store card v) (hsame : SameText card next)
    (hplace : next.laneId = card.laneId ∧ next.boardId = card.boardId)
    (hrow : next.resolution = card.resolution ∧ next.waitingReason = card.waitingReason ∧
      next.expectedResumeAt = card.expectedResumeAt)
    (hquiet : e.body.eventType ≠ .cancelled) (hfits : v.Fits e)
    (happly : v.apply e = { v with
      archived := next.archivedAt.isSome
      blocked := next.blocked
      blockedReason := next.blockedReason }) :
    ∃ v', trail.Reads v [e] v' ∧ Tracks w'.store next v' := by
  obtain ⟨lane, ⟨hmem, hid, hboard⟩, hkey⟩ := hv.lane
  obtain ⟨hresolution, hreason, hday⟩ := hrow
  have hlane : ∃ lane, LaneOf w'.store next lane ∧ lane.key = v.lane :=
    ⟨lane, ⟨by rwa [hr.lanes], hid.trans hplace.1.symm, hboard.trans hplace.2.symm⟩, hkey⟩
  have hcanc := cancellationsOf_append card.id hr.log hr.about
  have hnone : [e].filter (fun e => [CardEventType.cancelled].contains e.body.eventType) = [] := by
    simpa using hquiet
  rw [if_pos rfl, hnone, List.append_nil, ← hv.cancellations] at hcanc
  refine ⟨v.apply e, .single hfits, ?_⟩
  rw [happly]
  exact {
    toShows := hv.toShows.rewrite hsame (htags.tagNames_eq hknown) hlane
      (hv.resolution.trans hresolution.symm) rfl ⟨rfl, rfl⟩
      (fun known hk => hreason.trans (hv.waitingReason known hk))
      fun known hk => hday.trans (hv.expectedResumeAt known hk)
    cancellations := by rw [hsame.id, hcanc]
    opened := fun hopen => hresolution.trans (hv.opened hopen)
    waiting := fun hother => by rw [hreason, hday]; exact hv.waiting hother }

/-- A rewrite that takes the card to another lane, told by one event. -/
theorem tracks_crossed {e : CardEvent} {lane : Lane} (waiting : Option (Option WaitingReason))
    (day : Option (Option Day)) (hknown : TagsKnown w.store)
    (hr : Rewritten w w' card next [e]) (htags : TagEdit w.store w'.store card.id [])
    (hv : Tracks w.store card v) (hsame : SameText card next)
    (hlane : LaneOf w.store next lane)
    (hblocked : next.blocked = card.blocked ∧ next.blockedReason = card.blockedReason)
    (hfits : v.Fits e)
    (happly : v.apply e = { v with
      lane := lane.key
      resolution := next.resolution
      archived := next.archivedAt.isSome
      waitingReason := waiting
      expectedResumeAt := day
      cancellations := v.cancellations ++
        [e].filter fun e => [CardEventType.cancelled].contains e.body.eventType })
    (hopened : lane.key ≠ doneKey → next.resolution = none)
    (hreason : ∀ known, waiting = some known → next.waitingReason = known)
    (hday : ∀ known, day = some known → next.expectedResumeAt = known)
    (hwaiting : lane.key ≠ waitingKey → next.waitingReason = none ∧ next.expectedResumeAt = none) :
    ∃ v', trail.Reads v [e] v' ∧ Tracks w'.store next v' := by
  have hcanc := cancellationsOf_append card.id hr.log hr.about
  rw [if_pos rfl, ← hv.cancellations] at hcanc
  refine ⟨v.apply e, .single hfits, ?_⟩
  rw [happly]
  exact {
    toShows := hv.toShows.rewrite hsame (htags.tagNames_eq hknown)
      ⟨lane, LaneOf.of_lanes hlane hr.lanes, rfl⟩ rfl rfl
      ⟨hv.blocked.trans hblocked.1.symm, hv.blockedReason.trans hblocked.2.symm⟩ hreason hday
    cancellations := by rw [hsame.id, hcanc]
    opened := hopened
    waiting := hwaiting }

/-- Whatever rewrites a card, its events read the view of the row before to one of the row
after. -/
theorem tracks_changed [Platform] {op : CardOperation} {events : List CardEvent} (hknown : TagsKnown w.store) (h : Changed op w w' card next events)
    (hv : Tracks w.store card v) :
    ∃ v', trail.Reads v events v' ∧ Tracks w'.store next v' := by
  obtain ⟨hchange, hr⟩ := h
  obtain ⟨lane, hof, hkey⟩ := hv.lane
  generalize hbodies : events.map (·.body) = bodies at hchange
  cases hchange with
  | @edited _ _ _ _ _ _ change updatedAt _ _ _ _ hallowed htags _ =>
    obtain ⟨v', hreads, hshows, hlane, hcanc⟩ := shows_edited hknown hv.toShows htags hr.lanes
    have hcancellations := cancellationsOf_append card.id hr.log hr.about
    have hnone : events.filter (fun e => [CardEventType.cancelled].contains e.body.eventType) =
        [] := by
      refine List.filter_eq_nil_iff.mpr fun e he => ?_
      have hbody : e.body ∈ (changes card _ change).map .fieldChanged :=
        hbodies ▸ List.mem_map_of_mem he
      obtain ⟨_, -, hbody⟩ := List.mem_map.mp hbody
      simp [← hbody, CardEventBody.eventType]
    rw [if_pos rfl, hnone, List.append_nil, ← hv.cancellations] at hcancellations
    refine ⟨v', trail_of_edits hbodies hreads, hshows, ?_, ?_, ?_⟩
    · exact hcanc.trans hcancellations.symm
    · rw [hlane]
      exact hv.opened
    · rw [hlane]
      intro hother
      rcases hallowed with ⟨hreason, hday⟩ | ⟨waiting, hof', hwaits⟩
      · simpa [editedCard, hreason, hday] using hv.waiting hother
      · exact absurd (hkey.symm.trans ((congrArg Lane.key (LaneOf.unique hof hof')).trans hwaits)) hother
  | reordered _ _ _ _ hlane htags =>
    obtain ⟨e, rfl, hbody⟩ := List.map_eq_singleton_iff.mp hbodies
    refine tracks_inPlace hknown hr htags hv ⟨rfl, rfl, rfl, rfl, rfl, rfl, rfl⟩ ⟨?_, rfl⟩ ⟨rfl, rfl, rfl⟩
      (by simp [hbody, CardEventBody.eventType]) (by simp [CardView.Fits, hbody]) ?_
    · exact hlane.2.1
    · simp [CardView.apply, hbody, placedCard, ← hv.archived, ← hv.blocked, ← hv.blockedReason]
  | @moved _ _ _ _ _ fromLane toLane fields position updatedAt startedAt _ _ _ hactive _ hfrom hto
      hother hentry htags =>
    obtain ⟨e, rfl, hbody⟩ := List.map_eq_singleton_iff.mp hbodies
    obtain rfl := LaneOf.unique hof hfrom
    obtain ⟨hmem, hboard, -⟩ := laneWithKey_mem hto
    have hkeys : toLane.key ≠ lane.key := fun h =>
      hother (congrArg Lane.id (lane_eq_of_key hmem hof.1 (hboard.trans hof.2.2.symm) h))
    obtain ⟨hplaced, hsameBoard, harchived, hblocked⟩ :=
      crossLane_kept lane toLane fields position updatedAt startedAt
    have hresolution := crossLane_resolution fields position updatedAt startedAt hkeys fun h =>
      hv.opened (hkey ▸ h)
    have hwaits : toLane.key ≠ waitingKey → fields = none := fun h => (hentry.resolve_left fun hw => h hw.1).2
    have hwaiting : toLane.key ≠ waitingKey → (crossLane card (placedCard card toLane position
        updatedAt) lane toLane fields startedAt).waitingReason = none ∧ (crossLane card (placedCard
        card toLane position updatedAt) lane toLane fields startedAt).expectedResumeAt = none := by
      intro h
      rw [hwaits h]
      exact crossLane_waiting position updatedAt startedAt fun h => hv.waiting (hkey ▸ h)
    refine tracks_crossed (if toLane.key = waitingKey then none else some none)
      (if toLane.key = waitingKey then none else some none) hknown hr htags hv
      (sameText_crossLane lane toLane fields position updatedAt startedAt)
      ⟨hmem, hplaced.symm, hboard.trans hsameBoard.symm⟩ hblocked ?_ ?_ ?_ ?_ ?_ hwaiting
    · simp [CardView.Fits, hbody, hkey]
    · simp only [CardView.apply, hbody, hresolution, harchived, ← hv.archived]
      simp [hbody, CardEventBody.eventType]
    · exact fun h => hresolution.trans (if_neg h)
    · intro known hk
      by_cases h : toLane.key = waitingKey
      · simp [h] at hk
      · simp only [if_neg h, Option.some.injEq] at hk
        exact (hwaiting h).1.trans hk
    · intro known hk
      by_cases h : toLane.key = waitingKey
      · simp [h] at hk
      · simp only [if_neg h, Option.some.injEq] at hk
        exact (hwaiting h).2.trans hk
  | cancelled _ _ hactive _ hfrom hopen hto htags =>
    obtain ⟨e, rfl, hbody⟩ := List.map_eq_singleton_iff.mp hbodies
    obtain rfl := LaneOf.unique hof hfrom
    obtain ⟨hmem, hboard, hdone⟩ := laneWithKey_mem hto
    refine tracks_crossed (some none) (some none) hknown hr htags hv
      ⟨rfl, rfl, rfl, rfl, rfl, rfl, rfl⟩ ⟨hmem, rfl, hboard⟩ ⟨rfl, rfl⟩ ?_ ?_ (fun h => absurd hdone h) (fun _ h => Option.some.inj h)
      (fun _ h => Option.some.inj h) fun _ => ⟨rfl, rfl⟩
    · simp [CardView.Fits, hbody, cancellationOf, hkey]
    · simp [CardView.apply, hbody, cancelledCard, cancellationOf, hdone, ← hv.archived,
        CardEventBody.eventType]
  | @reopened _ _ _ _ _ fromLane target position updatedAt _ _ _ hfrom hdone hto htags =>
    obtain ⟨e, rfl, hbody⟩ := List.map_eq_singleton_iff.mp hbodies
    obtain rfl := LaneOf.unique hof hfrom
    obtain ⟨hmem, hboard⟩ := reopenLane_mem hto
    obtain ⟨hreason, hday⟩ := restored_reopened position updatedAt hv (hkey.symm.trans hdone) hto
    refine tracks_crossed (some ((v.restored target.key).bind (·.waitingReason)))
      (some ((v.restored target.key).bind (·.expectedResumeAt))) hknown hr htags hv
      ⟨rfl, rfl, rfl, rfl, rfl, rfl, rfl⟩ ⟨hmem, rfl, hboard⟩ ⟨rfl, rfl⟩ ?_ ?_ (fun _ => rfl) (fun _ h => hreason.trans (Option.some.inj h))
      (fun _ h => hday.trans (Option.some.inj h)) fun h => ?_
    · simp [CardView.Fits, hbody]
    · simp only [CardView.apply, hbody]
      simp [hbody, reopenedCard, CardEventBody.eventType]
    · rw [hreason, hday]
      simp [CardView.restored, h]
  | archived _ _ _ _ _ _ htags =>
    obtain ⟨e, rfl, hbody⟩ := List.map_eq_singleton_iff.mp hbodies
    refine tracks_inPlace hknown hr htags hv ⟨rfl, rfl, rfl, rfl, rfl, rfl, rfl⟩ ⟨rfl, rfl⟩
      ⟨rfl, rfl, rfl⟩ (by simp [hbody, CardEventBody.eventType]) (by simp [CardView.Fits, hbody]) ?_
    simp [CardView.apply, hbody, CardService.archivedCard, ← hv.blocked, ← hv.blockedReason]
  | expired _ _ _ _ _ htags =>
    obtain ⟨e, rfl, hbody⟩ := List.map_eq_singleton_iff.mp hbodies
    refine tracks_inPlace hknown hr htags hv ⟨rfl, rfl, rfl, rfl, rfl, rfl, rfl⟩ ⟨rfl, rfl⟩
      ⟨rfl, rfl, rfl⟩ (by simp [hbody, CardEventBody.eventType]) (by simp [CardView.Fits, hbody]) ?_
    simp [CardView.apply, hbody, CardService.archivedCard, ← hv.blocked, ← hv.blockedReason]
  | blocked _ _ _ _ _ htags =>
    obtain ⟨e, rfl, hbody⟩ := List.map_eq_singleton_iff.mp hbodies
    refine tracks_inPlace hknown hr htags hv ⟨rfl, rfl, rfl, rfl, rfl, rfl, rfl⟩ ⟨rfl, rfl⟩
      ⟨rfl, rfl, rfl⟩ (by simp [hbody, CardEventBody.eventType]) (by simp [CardView.Fits, hbody]) ?_
    simp [CardView.apply, hbody, flaggedCard, ← hv.archived]
  | unblocked _ _ _ _ _ htags =>
    obtain ⟨e, rfl, hbody⟩ := List.map_eq_singleton_iff.mp hbodies
    refine tracks_inPlace hknown hr htags hv ⟨rfl, rfl, rfl, rfl, rfl, rfl, rfl⟩ ⟨rfl, rfl⟩
      ⟨rfl, rfl, rfl⟩ (by simp [hbody, CardEventBody.eventType]) (by simp [CardView.Fits, hbody]) ?_
    simp [CardView.apply, hbody, flaggedCard, ← hv.archived]

end rewrites
end AiKanban.Invariants
