import AiKanban.Invariants.Placement

/-!
# The waiting lane

A card is in the lane `waiting_parts_vendor` exactly when it has a waiting reason and a
resume date, as long as no card gets there by position instead of by key: a creation and
the last fallback of a reopen take the first lane of the board, whatever its key is.
-/
namespace AiKanban.Invariants

open Domain Db Relational Services Services.CardService Transactions Effects
open Application

def WaitingDiscipline (s : Store) : Prop :=
  ∀ card ∈ s.cards.rows,
    (InWaitingLane s card ↔ card.waitingReason.isSome ∧ card.expectedResumeAt.isSome) ∧
      (card.resumeAlertedAt.isSome → InWaitingLane s card)

instance (s : Store) (card : Card) : Decidable (InWaitingLane s card) :=
  inferInstanceAs (Decidable (∃ lane ∈ s.lanes.rows, _ ∧ _))

instance (s : Store) : Decidable (WaitingDiscipline s) :=
  inferInstanceAs (Decidable (∀ card ∈ s.cards.rows, _))

/-- What the key of its lane says about the waiting fields of a card. -/
def waitingRule (key : LaneKey) (card : Card) : Prop :=
  if key = waitingKey then card.waitingReason.isSome ∧ card.expectedResumeAt.isSome
  else card.waitingReason = none ∧ card.expectedResumeAt = none ∧ card.resumeAlertedAt = none

/-- A cancellation out of the waiting lane records the resume date. -/
def waitingLogged (payload : Cancellation) : Prop :=
  payload.fromLane = waitingKey → payload.expectedResumeAt.isSome

theorem waitingRule_waiting {card : Card} :
    waitingRule waitingKey card ↔ card.waitingReason.isSome ∧ card.expectedResumeAt.isSome := by
  rw [waitingRule, if_pos rfl]

theorem waitingRule_other {key : LaneKey} {card : Card} (h : key ≠ waitingKey) :
    waitingRule key card ↔
      card.waitingReason = none ∧ card.expectedResumeAt = none ∧ card.resumeAlertedAt = none := by
  rw [waitingRule, if_neg h]

/-- The rule reads nothing but the waiting fields. -/
theorem waitingRule_congr {key : LaneKey} {card card' : Card}
    (hreason : card'.waitingReason = card.waitingReason)
    (hday : card'.expectedResumeAt = card.expectedResumeAt)
    (halerted : card'.resumeAlertedAt = card.resumeAlertedAt) :
    waitingRule key card' ↔ waitingRule key card := by
  unfold waitingRule
  rw [hreason, hday, halerted]

section changes

variable {s : Store} {card : Card}

/-- An edit that names a waiting field is of a card in the waiting lane, and sets it. -/
theorem waitingRule_edited {input : UpdateCardInput} {updatedAt : Instant} {lane : Lane}
    (hlane : LaneOf s card lane) (hrule : waitingRule lane.key card)
    (hallowed : WaitingEditAllowed s card input) :
    waitingRule lane.key (editedCard card input updatedAt) := by
  rcases hallowed with ⟨hreason, hday⟩ | ⟨waiting, hwaiting, hkey⟩
  · refine (waitingRule_congr ?_ ?_ ?_).mpr hrule <;> simp [editedCard, hreason, hday]
  · have heq : lane.key = waitingKey := by rw [LaneOf.unique hlane hwaiting, hkey]
    rw [heq] at hrule ⊢
    obtain ⟨hreason, hday⟩ := waitingRule_waiting.mp hrule
    refine waitingRule_waiting.mpr ⟨?_, ?_⟩
    · cases hi : input.waitingReason <;> simp [editedCard, hi, hreason]
    · cases hi : input.expectedResumeAt <;> simp [editedCard, hi, hday]

/-- A move into the waiting lane brings both fields, a move out of it clears them. -/
theorem waitingRule_moved {input : MoveCardInput} {fromLane toLane : Lane}
    {fields : Option WaitingLaneEntry} {position : String} {updatedAt startedAt : Instant}
    (hrule : waitingRule fromLane.key card) (hother : toLane.key ≠ fromLane.key)
    (hentry : EntryFields input toLane fields) :
    waitingRule toLane.key
      (crossLane card (placedCard card toLane position updatedAt) fromLane toLane fields
        startedAt) := by
  rcases hentry with ⟨hkey, entry, rfl, -⟩ | ⟨hkey, rfl⟩
  · have hfrom : fromLane.key ≠ waitingKey := fun h => hother (hkey.trans h.symm)
    rw [hkey]
    refine waitingRule_waiting.mpr ?_
    simp only [crossLane, if_neg hfrom]
    split_ifs <;> simp
  · refine (waitingRule_other hkey).mpr ?_
    by_cases hfrom : fromLane.key = waitingKey
    · simp only [crossLane, if_pos hfrom]
      split_ifs <;> simp
    · obtain ⟨hreason, hday, halerted⟩ := (waitingRule_other hfrom).mp hrule
      simp only [crossLane, if_neg hfrom]
      split_ifs <;> simp [placedCard, hreason, hday, halerted]

/-- A reopened card is in the waiting lane only when its recorded fields are restored. -/
theorem waitingRule_reopened {fromLane target : Lane} {position : String} {updatedAt : Instant}
    (hrule : waitingRule fromLane.key card) (hdone : fromLane.key = doneKey)
    (hplaced : Placed waitingRule waitingLogged s) (hto : reopenLane s card = some target)
    (hentry : FallsBackToEntry s card → ∀ lane ∈ entryLane s card.boardId,
      lane.key ≠ waitingKey) :
    waitingRule target.key
      (reopenedCard card (storedCancellation s card) (laneToRestore s card) target position
        updatedAt) := by
  have hfrom : fromLane.key ≠ waitingKey := by
    rw [hdone]
    decide
  obtain ⟨hreason, hday, halerted⟩ := (waitingRule_other hfrom).mp hrule
  rcases reopenLane_cases hto with ⟨payload, hrestore, hstored, hkey, hguard⟩ | ⟨hnone, hready⟩ |
    ⟨hfalls, hlane⟩
  · by_cases hwaiting : target.key = waitingKey
    · obtain ⟨e, he, hbody⟩ := storedCancellation_mem hstored
      have hlogged := hplaced.log e he payload hbody (hkey.symm.trans hwaiting)
      have hsome := Option.ne_none_iff_isSome.mp (hguard (hkey.symm.trans hwaiting))
      rw [hwaiting]
      refine waitingRule_waiting.mpr ?_
      simp [reopenedCard, hrestore, hstored, hwaiting, hlogged, hsome]
    · refine (waitingRule_other hwaiting).mpr ?_
      simp [reopenedCard, hwaiting, hreason, hday, halerted]
  · have hne : target.key ≠ waitingKey := by
      rw [hready]
      decide
    refine (waitingRule_other hne).mpr ?_
    simp [reopenedCard, hnone, hreason, hday, halerted]
  · refine (waitingRule_other (hentry hfalls target hlane)).mpr ?_
    simp [reopenedCard, hfalls.1, hreason, hday, halerted]

end changes

theorem Placed.waitingDiscipline {s : Store} (h : Placed waitingRule waitingLogged s) :
    WaitingDiscipline s := by
  intro card hcard
  obtain ⟨lane, hlane, hrule⟩ := h.cards card hcard
  have hin : InWaitingLane s card ↔ lane.key = waitingKey := by
    constructor
    · rintro ⟨waiting, hmem, hid, hkey⟩
      rw [lane_eq_of_id hlane.1 hmem (hlane.2.1.trans hid.symm), hkey]
    · exact fun hkey => ⟨lane, hlane.1, hlane.2.1, hkey⟩
  by_cases hkey : lane.key = waitingKey
  · rw [hkey] at hrule
    exact ⟨⟨fun _ => waitingRule_waiting.mp hrule, fun _ => hin.mpr hkey⟩, fun _ => hin.mpr hkey⟩
  · obtain ⟨hreason, hday, halerted⟩ := (waitingRule_other hkey).mp hrule
    rw [hin, hreason, hday, halerted]
    simp [hkey]

section runs

variable [Platform]

theorem lawful_waiting : Lawful waitingRule waitingLogged (EntryAvoids waitingKey) where
  created := by
    intro w deps actor raw input options options' origin reporterId lane id position nowIso hop hentry
    exact (waitingRule_other (hop lane hentry)).mpr ⟨rfl, rfl, rfl⟩
  changed := by
    intro w s' op card next bodies lane hop hplaced hcard hchange hlane hrule
    have hkept : ∀ {c : Card}, c.laneId = card.laneId → c.boardId = card.boardId →
        waitingRule lane.key c → ∃ lane', LaneOf w.store c lane' ∧ waitingRule lane'.key c :=
      fun hid hboard hc => ⟨lane, ⟨hlane.1, hlane.2.1.trans hid.symm, hlane.2.2.trans hboard.symm⟩, hc⟩
    cases hchange with
    | edited _ _ _ _ hallowed _ _ =>
      refine ⟨hkept rfl rfl (waitingRule_edited hlane hrule hallowed), ?_⟩
      simp [CardEventBody.cancellation?]
    | reordered _ _ _ _ hof _ =>
      obtain rfl := LaneOf.unique hlane hof
      refine ⟨⟨_, ⟨hlane.1, rfl, hlane.2.2⟩, (waitingRule_congr rfl rfl rfl).mpr hrule⟩, ?_⟩
      simp [CardEventBody.cancellation?]
    | moved _ _ _ _ hof hto hother hentry _ =>
      obtain rfl := LaneOf.unique hlane hof
      obtain ⟨hmem, hboard, -⟩ := laneWithKey_mem hto
      refine ⟨⟨_, ?_, waitingRule_moved hrule (fun hkey => hother ?_) hentry⟩, ?_⟩
      · obtain ⟨_, _, _, _, _, hcross⟩ := crossLane_frame card _ _ _ _ _
        rw [hcross]
        exact ⟨hmem, rfl, hboard⟩
      · rw [lane_eq_of_key hmem hlane.1 (hboard.trans hlane.2.2.symm) hkey]
      · simp [CardEventBody.cancellation?]
    | cancelled _ _ _ _ hof _ hto _ =>
      obtain rfl := LaneOf.unique hlane hof
      obtain ⟨hmem, hboard, hkey⟩ := laneWithKey_mem hto
      refine ⟨⟨_, ⟨hmem, rfl, hboard⟩, (waitingRule_other ?_).mpr ⟨rfl, rfl, rfl⟩⟩, ?_⟩
      · rw [hkey]
        decide
      intro body hbody p hp hfrom
      rw [List.mem_singleton.mp hbody] at hp
      cases hp
      change lane.key = waitingKey at hfrom
      rw [hfrom] at hrule
      obtain ⟨hreason, hday⟩ := waitingRule_waiting.mp hrule
      simp [cancellationOf, hreason, hday]
    | reopened _ hfound _ hof hdone hto _ =>
      obtain rfl := LaneOf.unique hlane hof
      obtain ⟨hmem, hboard⟩ := reopenLane_mem hto
      refine ⟨⟨_, ⟨hmem, rfl, hboard⟩, waitingRule_reopened hrule hdone hplaced hto ?_⟩, ?_⟩
      · exact hop card hfound
      · simp [CardEventBody.cancellation?]
    | archived | expired | blocked | unblocked =>
      refine ⟨hkept rfl rfl ((waitingRule_congr rfl rfl rfl).mpr hrule), ?_⟩
      simp [CardEventBody.cancellation?]
  alerted := fun hrule => waitingRule_waiting.mpr (waitingRule_waiting.mp hrule)
  unlocated := fun hrule => (waitingRule_congr rfl rfl rfl).mpr hrule

/-- The discipline holds in every state reached without entering the waiting lane by position. -/
theorem waiting_discipline (inputs : ℕ → Tick) (ops : List Operation)
    (hops : RunsUnder (EntryAvoids waitingKey) (freshlySeeded inputs) ops) :
    WaitingDiscipline (run (freshlySeeded inputs) ops).store := by
  refine Placed.waitingDiscipline ?_
  refine run_invariant (I := fun w => Placed waitingRule waitingLogged w.store)
    (fun _ _ _ hstore hop => hop.of_store hstore) (fun _ _ _ _ => trivial)
    (fun _ _ _ hw hop heffect => placed_effect lawful_waiting hw hop heffect) ops ?_ hops
  exact ⟨by simp, by simp⟩

end runs

/-- A card that goes into the waiting lane, is cancelled there and is reopened. -/
def waitingRun : List Operation :=
  [.card (.create ⟨101, 102, .sqlite⟩ sampleActor { title := "Pump" } {}),
    .card (.move sampleActor 1 ⟨"waiting_parts_vendor", none, none, some "parts", some 20000, 1⟩),
    .card (.cancel sampleActor 1 ⟨.declined, 2⟩), .card (.reopen sampleActor 1 ⟨3⟩)]

theorem waiting_discipline_restored :
    WaitingDiscipline (@run samplePlatform (freshlySeeded sampleTicks) waitingRun).store :=
  @waiting_discipline samplePlatform sampleTicks waitingRun (by decide +kernel)

example : (@run samplePlatform (freshlySeeded sampleTicks) waitingRun).store.cards.rows.map
    (fun c => (c.laneId, c.waitingReason)) = [(107, some "parts")] := by decide +kernel

/-- The columns with `waiting_parts_vendor` first. -/
def waitingFirst : ReorderLanesInput := ⟨[107, 103, 104, 105, 106, 108, 109]⟩

def createInEntry : List Operation :=
  [.administration (.reorderLanes 101 sampleActor waitingFirst),
    .card (.create ⟨101, 102, .sqlite⟩ sampleActor { title := "Pump" } {})]

/-- A card created while the waiting lane comes first has neither reason nor date. -/
theorem waiting_discipline_fails : ¬ ∀ (_ : Platform) (inputs : ℕ → Tick) (ops : List Operation),
    WaitingDiscipline (run (freshlySeeded inputs) ops).store := by
  intro h
  refine absurd (h samplePlatform sampleTicks createInEntry) ?_
  decide +kernel

end AiKanban.Invariants
