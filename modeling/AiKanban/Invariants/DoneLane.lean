import AiKanban.Invariants.Placement

/-!
# The done lane

A card has a resolution exactly when it is in the lane `done`, and is archived only
there, as long as no card gets there by position instead of by key.
-/
namespace AiKanban.Invariants

open Domain Db Relational Services Services.CardService Transactions Effects
open Application

def TerminalCoherence (s : Store) : Prop :=
  ∀ card ∈ s.cards.rows,
    (card.resolution.isSome ↔ InDoneLane s card) ∧ (card.archivedAt.isSome → InDoneLane s card)

instance (s : Store) (card : Card) : Decidable (InDoneLane s card) :=
  inferInstanceAs (Decidable (∃ lane ∈ s.lanes.rows, _ ∧ _))

instance (s : Store) : Decidable (TerminalCoherence s) :=
  inferInstanceAs (Decidable (∀ card ∈ s.cards.rows, _))

/-- What the key of its lane says about how a card ended. -/
def doneRule (key : LaneKey) (card : Card) : Prop :=
  if key = doneKey then card.resolution ≠ none
  else card.resolution = none ∧ card.archivedAt = none

/-- No cancellation is of a card that was done. -/
def doneLogged (payload : Cancellation) : Prop := payload.fromLane ≠ doneKey

theorem doneRule_done {card : Card} : doneRule doneKey card ↔ card.resolution ≠ none := by
  rw [doneRule, if_pos rfl]

theorem doneRule_open {key : LaneKey} {card : Card} (h : key ≠ doneKey) :
    doneRule key card ↔ card.resolution = none ∧ card.archivedAt = none := by
  rw [doneRule, if_neg h]

theorem doneRule_congr {key : LaneKey} {card card' : Card}
    (hresolution : card'.resolution = card.resolution)
    (harchived : card'.archivedAt = card.archivedAt) : doneRule key card' ↔ doneRule key card := by
  unfold doneRule
  rw [hresolution, harchived]

section changes

variable {s : Store} {card : Card}

/-- A card moved into `done` is completed, a card moved out of it is open again. -/
theorem doneRule_moved {fromLane toLane : Lane} {fields : Option WaitingLaneEntry}
    {position : String} {updatedAt startedAt : Instant} (hrule : doneRule fromLane.key card)
    (hactive : card.archivedAt = none) (hother : toLane.key ≠ fromLane.key) :
    doneRule toLane.key
      (crossLane card (placedCard card toLane position updatedAt) fromLane toLane fields
        startedAt) := by
  have harchived : (crossLane card (placedCard card toLane position updatedAt) fromLane toLane
      fields startedAt).archivedAt = none := by
    obtain ⟨_, _, _, _, _, hcross⟩ := crossLane_frame card (placedCard card toLane position updatedAt)
      fromLane toLane fields startedAt
    rw [hcross]
    exact hactive
  by_cases hto : toLane.key = doneKey
  · have hfrom : fromLane.key ≠ doneKey := fun h => hother (hto.trans h.symm)
    rw [hto]
    refine doneRule_done.mpr ?_
    simp only [crossLane, if_neg hfrom, if_pos hto]
    exact Option.some_ne_none _
  · refine (doneRule_open hto).mpr ⟨?_, harchived⟩
    by_cases hfrom : fromLane.key = doneKey
    · simp only [crossLane, if_pos hfrom]
    · have hopen := ((doneRule_open hfrom).mp hrule).1
      simp only [crossLane, if_neg hfrom, if_neg hto]
      cases fields <;> split_ifs <;> simpa [placedCard] using hopen

/-- A reopened card leaves `done`. -/
theorem key_reopenLane {target : Lane} (hplaced : Placed doneRule doneLogged s)
    (hto : reopenLane s card = some target)
    (hentry : FallsBackToEntry s card → ∀ lane ∈ entryLane s card.boardId, lane.key ≠ doneKey) :
    target.key ≠ doneKey := by
  rcases reopenLane_cases hto with ⟨payload, -, hstored, hkey, -⟩ | ⟨-, hready⟩ | ⟨hfalls, hlane⟩
  · obtain ⟨e, he, hbody⟩ := storedCancellation_mem hstored
    rw [hkey]
    exact hplaced.log e he payload hbody
  · rw [hready]
    decide
  · exact hentry hfalls target hlane

end changes

theorem Placed.terminalCoherence {s : Store} (h : Placed doneRule doneLogged s) :
    TerminalCoherence s := by
  intro card hcard
  obtain ⟨lane, hlane, hrule⟩ := h.cards card hcard
  have hin : InDoneLane s card ↔ lane.key = doneKey := by
    constructor
    · rintro ⟨done, hmem, hid, hkey⟩
      rw [lane_eq_of_id hlane.1 hmem (hlane.2.1.trans hid.symm), hkey]
    · exact fun hkey => ⟨lane, hlane.1, hlane.2.1, hkey⟩
  by_cases hkey : lane.key = doneKey
  · rw [hkey] at hrule
    have hsome := Option.isSome_iff_ne_none.mpr (doneRule_done.mp hrule)
    exact ⟨⟨fun _ => hin.mpr hkey, fun _ => hsome⟩, fun _ => hin.mpr hkey⟩
  · obtain ⟨hresolution, harchived⟩ := (doneRule_open hkey).mp hrule
    rw [hin, hresolution, harchived]
    simp [hkey]

section runs

variable [Platform]

theorem lawful_done : Lawful doneRule doneLogged (EntryAvoids doneKey) where
  created := by
    intro w deps actor raw input options options' origin reporterId lane id position nowIso hop hentry
    exact (doneRule_open (hop lane hentry)).mpr ⟨rfl, rfl⟩
  changed := by
    intro w s' op card next bodies lane hop hplaced hcard hchange hlane hrule
    have hkept : ∀ {c : Card}, c.laneId = card.laneId → c.boardId = card.boardId →
        doneRule lane.key c → ∃ lane', LaneOf w.store c lane' ∧ doneRule lane'.key c :=
      fun hid hboard hc => ⟨lane, ⟨hlane.1, hlane.2.1.trans hid.symm, hlane.2.2.trans hboard.symm⟩, hc⟩
    have harchived : ∀ {nowIso : Instant}, lane.key = doneKey →
        doneRule lane.key (CardService.archivedCard card nowIso) := by
      intro nowIso hkey
      rw [hkey] at hrule ⊢
      exact doneRule_done.mpr (doneRule_done.mp hrule)
    cases hchange with
    | reordered _ _ _ _ hof _ =>
      obtain rfl := LaneOf.unique hlane hof
      refine ⟨⟨_, ⟨hlane.1, rfl, hlane.2.2⟩, (doneRule_congr rfl rfl).mpr hrule⟩, ?_⟩
      simp [CardEventBody.cancellation?]
    | moved _ _ hactive _ hof hto hother _ _ =>
      obtain rfl := LaneOf.unique hlane hof
      obtain ⟨hmem, hboard, -⟩ := laneWithKey_mem hto
      refine ⟨⟨_, ?_, doneRule_moved hrule hactive fun hkey => hother ?_⟩, ?_⟩
      · obtain ⟨_, _, _, _, _, hcross⟩ := crossLane_frame card _ _ _ _ _
        rw [hcross]
        exact ⟨hmem, rfl, hboard⟩
      · rw [lane_eq_of_key hmem hlane.1 (hboard.trans hlane.2.2.symm) hkey]
      · simp [CardEventBody.cancellation?]
    | cancelled _ _ _ _ hof hopen hto _ =>
      obtain rfl := LaneOf.unique hlane hof
      obtain ⟨hmem, hboard, hkey⟩ := laneWithKey_mem hto
      refine ⟨⟨_, ⟨hmem, rfl, hboard⟩, ?_⟩, ?_⟩
      · rw [hkey]
        exact doneRule_done.mpr (Option.some_ne_none _)
      · intro body hbody p hp
        rw [List.mem_singleton.mp hbody] at hp
        cases hp
        exact hopen
    | reopened _ hfound _ hof hdone hto _ =>
      obtain ⟨hmem, hboard⟩ := reopenLane_mem hto
      have hopen := key_reopenLane hplaced hto (hop card hfound)
      refine ⟨⟨_, ⟨hmem, rfl, hboard⟩, (doneRule_open hopen).mpr ⟨rfl, rfl⟩⟩, ?_⟩
      simp [CardEventBody.cancellation?]
    | archived _ _ _ _ hof hdone _ =>
      obtain rfl := LaneOf.unique hlane hof
      refine ⟨hkept rfl rfl (harchived hdone), ?_⟩
      simp [CardEventBody.cancellation?]
    | expired _ _ hmem hid hdone _ =>
      obtain rfl := lane_eq_of_id hlane.1 hmem (hlane.2.1.trans hid.symm)
      refine ⟨hkept rfl rfl (harchived hdone), ?_⟩
      simp [CardEventBody.cancellation?]
    | edited | blocked | unblocked =>
      refine ⟨hkept rfl rfl ((doneRule_congr rfl rfl).mpr hrule), ?_⟩
      simp [CardEventBody.cancellation?]
  alerted := fun hrule => (doneRule_congr rfl rfl).mpr hrule
  unlocated := fun hrule => (doneRule_congr rfl rfl).mpr hrule

/-- Resolutions and archival follow the lane in every state reached without entering
`done` by position. -/
theorem terminal_coherence (inputs : ℕ → Tick) (ops : List Operation)
    (hops : RunsUnder (EntryAvoids doneKey) (freshlySeeded inputs) ops) :
    TerminalCoherence (run (freshlySeeded inputs) ops).store := by
  refine Placed.terminalCoherence ?_
  refine run_invariant (I := fun w => Placed doneRule doneLogged w.store)
    (fun _ _ _ hstore hop => hop.of_store hstore) (fun _ _ _ _ => trivial)
    (fun _ _ _ hw hop heffect => placed_effect lawful_done hw hop heffect) ops ?_ hops
  exact ⟨by simp, by simp⟩

end runs

/-- A card that is completed, archived and reopened. -/
def terminalRun : List Operation :=
  [.card (.create ⟨101, 102, .sqlite⟩ sampleActor { title := "Pump" } {}),
    .card (.move sampleActor 1 ⟨"done", none, none, none, none, 1⟩),
    .card (.archive sampleActor 1 ⟨2⟩), .card (.reopen sampleActor 1 ⟨3⟩)]

theorem terminal_coherence_reopened :
    TerminalCoherence (@run samplePlatform (freshlySeeded sampleTicks) terminalRun).store :=
  @terminal_coherence samplePlatform sampleTicks terminalRun (by decide +kernel)

example : (@run samplePlatform (freshlySeeded sampleTicks) terminalRun).store.cards.rows.map
    (fun c => (c.laneId, c.resolution, c.version)) = [(105, none, 4)] := by decide +kernel

/-- The columns with `done` first. -/
def doneFirst : ReorderLanesInput := ⟨[109, 103, 104, 105, 106, 107, 108]⟩

def createInDone : List Operation :=
  [.administration (.reorderLanes 101 sampleActor doneFirst),
    .card (.create ⟨101, 102, .sqlite⟩ sampleActor { title := "Pump" } {})]

/-- A card created while `done` comes first is done without a resolution. -/
theorem terminal_coherence_fails : ¬ ∀ (_ : Platform) (inputs : ℕ → Tick) (ops : List Operation),
    TerminalCoherence (run (freshlySeeded inputs) ops).store := by
  intro h
  refine absurd (h samplePlatform sampleTicks createInDone) ?_
  decide +kernel

end AiKanban.Invariants
