import AiKanban.Effects.Steps

/-!
# What a discard takes with it

A discard removes a card with its whole log. It looks at the card's present lane, not
at its past, and the next card created on SQLite may get the id that became free.
-/
namespace AiKanban.Invariants

open Domain Db Relational Services Transactions Effects
open Application

/-- The log of the card says that it left a lane. -/
def Departed (s : Store) (cardId : ℕ) : Prop :=
  ∃ e ∈ s.cardEvents.rows, e.cardId = cardId ∧
    (e.body.eventType = .statusChanged ∨ e.body.eventType = .cancelled)

instance (s : Store) (cardId : ℕ) : Decidable (Departed s cardId) :=
  inferInstanceAs (Decidable (∃ e ∈ s.cardEvents.rows, _ ∧ _))

/-- Cards that left a lane are still there, with every event they had. -/
def HistoryKept (s s' : Store) : Prop :=
  ∀ card ∈ s.cards.rows, Departed s card.id →
    (∃ card' ∈ s'.cards.rows, card'.id = card.id) ∧
      ∀ e ∈ s.cardEvents.rows, e.cardId = card.id → e ∈ s'.cardEvents.rows

instance (s s' : Store) : Decidable (HistoryKept s s') :=
  inferInstanceAs (Decidable (∀ card ∈ s.cards.rows, _ → _ ∧ _))

/-- A discard that passes its checks spares the cards of a kind. -/
def DiscardsSpare (spared : Store → ℕ → Prop) (w : World Store Tick) : Operation → Prop
  | .card (.delete actor cardId expectedVersion) =>
      ∀ card, Runs (CardService.deleteChecks actor cardId expectedVersion) w card w →
        ¬ spared w.store cardId
  | _ => True

theorem DiscardsSpare.of_store {spared : Store → ℕ → Prop} {w w₁ : World Store Tick}
    {op : Operation} (hstore : w₁.store = w.store) (h : DiscardsSpare spared w op) :
    DiscardsSpare spared w₁ op := by
  unfold DiscardsSpare at h ⊢
  rw [hstore]
  split at h
  · intro card hchecks
    exact h card (hchecks.of_store (readsOnly_deleteChecks _ _ _) hstore.symm)
  · exact h

section history

theorem HistoryKept.refl (s : Store) : HistoryKept s s :=
  fun card hcard _ => ⟨⟨card, hcard, rfl⟩, fun _ he _ => he⟩

/-- The log that proves the departure is kept with the card. -/
theorem HistoryKept.trans {s s' s'' : Store} (h : HistoryKept s s') (h' : HistoryKept s' s'') :
    HistoryKept s s'' := by
  intro card hcard hdeparted
  obtain ⟨⟨card', hcard', hid⟩, hlog⟩ := h card hcard hdeparted
  obtain ⟨e, he, hof, htype⟩ := hdeparted
  have hdeparted' : Departed s' card'.id := ⟨e, hlog e he hof, hof.trans hid.symm, htype⟩
  obtain ⟨⟨card'', hcard'', hid'⟩, hlog'⟩ := h' card' hcard' hdeparted'
  refine ⟨⟨card'', hcard'', hid'.trans hid⟩, fun e he hof => ?_⟩
  exact hlog' e (hlog e he hof) (hof.trans hid.symm)

theorem historyKept_of_grows {s s' : Store} (h : Grows s s') : HistoryKept s s' :=
  fun card hcard _ => ⟨h.cards card hcard, fun e he _ => h.log e he⟩

variable {w w' : World Store Tick}

/-- A discard of a card that never left its lane leaves the others alone. -/
theorem historyKept_discarded {cardId : ℕ} (h : Discarded w w' cardId)
    (hstayed : ¬ Departed w.store cardId) : HistoryKept w.store w'.store := by
  intro card hcard hdeparted
  have hne : card.id ≠ cardId := by
    rintro rfl
    exact hstayed hdeparted
  constructor
  · refine ⟨card, ?_, rfl⟩
    rw [h.cards]
    exact Table.mem_remove.mpr ⟨hcard, by simpa using hne⟩
  · intro e he hof
    rw [h.cardEvents]
    exact Table.mem_remove.mpr ⟨he, by simpa [hof] using hne⟩

variable [Platform]

theorem historyKept_effect {op : Operation} (hop : DiscardsSpare Departed w op)
    (h : Effect w w' op) : HistoryKept w.store w'.store := by
  rcases h.grows_or_discarded with hgrows | ⟨actor, cardId, version, card, rfl, hchecks, hdiscarded⟩
  · exact historyKept_of_grows hgrows
  · exact historyKept_discarded hdiscarded (hop card hchecks)

/-- Nothing of a card that left a lane is lost later in a run whose discards spare such cards. -/
theorem history_kept (inputs : ℕ → Tick) (ops ops' : List Operation)
    (hops : RunsUnder (DiscardsSpare Departed) (run (freshlySeeded inputs) ops) ops') :
    HistoryKept (run (freshlySeeded inputs) ops).store
      (run (freshlySeeded inputs) (ops ++ ops')).store := by
  rw [run_append]
  refine run_invariant
    (I := fun w => HistoryKept (run (freshlySeeded inputs) ops).store w.store)
    (fun _ _ _ hstore hop => hop.of_store hstore) (fun _ _ _ _ => trivial) ?_ ops' (.refl _) hops
  intro w w' op hw hop heffect
  exact hw.trans (historyKept_effect hop heffect)

end history

/-- A card that leaves its entry lane and comes back to it. -/
def thereAndBack : List Operation :=
  [.card (.create ⟨101, 102, .sqlite⟩ sampleActor { title := "Pump" } {}),
    .card (.move sampleActor 1 ⟨"ready", none, none, none, none, 1⟩),
    .card (.move sampleActor 1 ⟨"intake", none, none, none, none, 2⟩)]

/-- Its discard is accepted. -/
def discardIt : List Operation := [.card (.delete sampleActor 1 3)]

/-- A card that was never moved may be discarded. -/
def discardAnother : List Operation :=
  [.card (.create ⟨101, 102, .sqlite⟩ sampleActor { title := "Fan" } {}),
    .card (.delete sampleActor 2 1)]

theorem history_kept_beside_discard :
    HistoryKept (@run samplePlatform (freshlySeeded sampleTicks) thereAndBack).store
      (@run samplePlatform (freshlySeeded sampleTicks) (thereAndBack ++ discardAnother)).store :=
  @history_kept samplePlatform sampleTicks thereAndBack discardAnother
    ⟨trivial, fun _ _ => by decide +kernel, trivial⟩

theorem history_kept_fails : ¬ ∀ (_ : Platform) (inputs : ℕ → Tick) (ops ops' : List Operation),
    HistoryKept (run (freshlySeeded inputs) ops).store
      (run (freshlySeeded inputs) (ops ++ ops')).store := by
  intro h
  refine absurd (h samplePlatform sampleTicks thereAndBack discardIt) ?_
  decide +kernel

section ids

/-- Ids come from SQLite, and no discard that passes its checks takes the greatest one. -/
def KeepsGreatestId (w : World Store Tick) : Operation → Prop
  | .card (.create deps _ _ _) => deps.dialect = .sqlite
  | .card (.delete actor cardId expectedVersion) =>
      ∀ card, Runs (CardService.deleteChecks actor cardId expectedVersion) w card w →
        ∃ other ∈ w.store.cards.rows, cardId < other.id
  | _ => True

theorem KeepsGreatestId.of_store {w w₁ : World Store Tick} {op : Operation}
    (hstore : w₁.store = w.store) (h : KeepsGreatestId w op) : KeepsGreatestId w₁ op := by
  unfold KeepsGreatestId at h ⊢
  rw [hstore]
  split at h
  · exact h
  · intro card hchecks
    exact h card (hchecks.of_store (readsOnly_deleteChecks _ _ _) hstore.symm)
  · exact h

/-- The id an accepted creation gives out. -/
def createdId? : Operation → Except DomainError Result → Option ℕ
  | .card (.create ..), .ok (.card card) => some card.id
  | _, _ => none

variable [Platform]

/-- The ids the creations of a run give out, in order. -/
def createdIds : World Store Tick → List Operation → List ℕ
  | _, [] => []
  | w, op :: ops => (createdId? op (op.perform w).1).toList ++ createdIds (step w op) ops

/-- No two creations give out the same id, so that an id read from a card is never given
to another card later on. -/
def IdsNeverReused (w : World Store Tick) (ops : List Operation) : Prop :=
  (createdIds w ops).Nodup ∧ ∀ ops₁ ops₂, ops = ops₁ ++ ops₂ →
    ∀ card ∈ (run w ops₁).store.cards.rows, card.id ∉ createdIds (run w ops₁) ops₂

end ids

section greatest

open CardRepository

theorem foldl_max_le_iff {ids : List ℕ} {m n : ℕ} :
    ids.foldl max m ≤ n ↔ m ≤ n ∧ ∀ id ∈ ids, id ≤ n := by
  induction ids generalizing m with
  | nil => simp
  | cons id ids ih =>
    rw [List.foldl_cons, ih]
    rw [List.forall_mem_cons, max_le_iff, and_assoc]

theorem maxId_le_iff {cards : List Card} {n : ℕ} : maxId cards ≤ n ↔ ∀ c ∈ cards, c.id ≤ n := by
  unfold maxId
  rw [foldl_max_le_iff]
  simp

theorem le_maxId {cards : List Card} {card : Card} (h : card ∈ cards) : card.id ≤ maxId cards :=
  maxId_le_iff.mp le_rfl card h

theorem maxId_le_of_grows {s s' : Store} (h : Grows s s') :
    maxId s.cards.rows ≤ maxId s'.cards.rows := by
  refine maxId_le_iff.mpr fun card hcard => ?_
  obtain ⟨card', hcard', hid⟩ := h.cards card hcard
  rw [← hid]
  exact le_maxId hcard'

/-- The greatest id stays when a lesser one goes. -/
theorem maxId_le_of_discarded {w w' : World Store Tick} {cardId : ℕ} (h : Discarded w w' cardId)
    (hless : ∃ other ∈ w.store.cards.rows, cardId < other.id) :
    maxId w.store.cards.rows ≤ maxId w'.store.cards.rows := by
  have hkept : ∀ c ∈ w.store.cards.rows, c.id ≠ cardId → c.id ≤ maxId w'.store.cards.rows := by
    intro c hc hne
    refine le_maxId ?_
    rw [h.cards]
    exact Table.mem_remove.mpr ⟨hc, by simpa using hne⟩
  obtain ⟨other, hother, hlt⟩ := hless
  have hle := hkept other hother (by omega)
  refine maxId_le_iff.mpr fun card hcard => ?_
  by_cases hid : card.id = cardId
  · omega
  · exact hkept card hcard hid

variable [Platform] {w : World Store Tick} {op : Operation}

/-- The greatest id never falls. -/
theorem maxId_le_step (hop : KeepsGreatestId w op) :
    maxId w.store.cards.rows ≤ maxId (step w op).store.cards.rows := by
  refine step_induction (I := fun w' => maxId w.store.cards.rows ≤ maxId w'.store.cards.rows)
    (fun _ _ _ hstore hop => hop.of_store hstore) (fun _ _ _ _ => trivial) ?_ le_rfl hop
  intro w₁ w₂ op hle hop heffect
  rcases heffect.grows_or_discarded with
    hgrows | ⟨actor, cardId, version, card, rfl, hchecks, hdiscarded⟩
  · exact hle.trans (maxId_le_of_grows hgrows)
  · exact hle.trans (maxId_le_of_discarded hdiscarded (hop card hchecks))

/-- An id given out lies above the greatest id before and not above the one after. -/
theorem createdId?_bounds {id : ℕ} (hop : KeepsGreatestId w op)
    (h : createdId? op (op.perform w).1 = some id) :
    maxId w.store.cards.rows < id ∧ id ≤ maxId (step w op).store.cards.rows := by
  cases op with
  | collaboration | administration => cases h
  | card op =>
    cases op with
    | create deps actor raw options =>
      simp only [step, Operation.perform, CardOperation.perform, respond] at h ⊢
      rcases hp : (CardService.create deps actor raw options).perform w with ⟨e | card, w'⟩
      · rw [hp] at h
        cases h
      · rw [hp] at h
        cases h
        obtain ⟨w₁, resolved, event, hdrew, hcreated⟩ := perform_create hp
        have hticket := hcreated.ticket hop
        rw [hdrew.store] at hticket
        have hle : card.id ≤ maxId w'.store.cards.rows := by
          refine le_maxId ?_
          rw [hcreated.cards]
          exact Table.mem_insert.mpr (.inr ⟨hcreated.accepted, rfl⟩)
        exact ⟨by omega, hle⟩
    | _ => cases h

/-- Ids given out lie above every id there was. -/
theorem lt_of_mem_createdIds {ops : List Operation} {id : ℕ}
    (hops : RunsUnder KeepsGreatestId w ops) (h : id ∈ createdIds w ops) :
    maxId w.store.cards.rows < id := by
  induction ops generalizing w with
  | nil => cases h
  | cons op ops ih =>
    rcases List.mem_append.mp h with hfirst | hrest
    · exact (createdId?_bounds hops.1 (Option.mem_toList.mp hfirst)).1
    · have hle := maxId_le_step hops.1
      have hlt := ih hops.2 hrest
      omega

theorem nodup_createdIds {ops : List Operation} (hops : RunsUnder KeepsGreatestId w ops) :
    (createdIds w ops).Nodup := by
  induction ops generalizing w with
  | nil => exact List.nodup_nil
  | cons op ops ih =>
    rw [createdIds]
    cases hid : createdId? op (op.perform w).1 with
    | none => exact ih hops.2
    | some id =>
      refine List.nodup_cons.mpr ⟨fun hagain => ?_, ih hops.2⟩
      have hle := (createdId?_bounds hops.1 hid).2
      have hlt := lt_of_mem_createdIds hops.2 hagain
      omega

/-- Ids are not reused in a run on SQLite whose discards leave the greatest id in place. -/
theorem ids_never_reused (inputs : ℕ → Tick) (ops : List Operation)
    (hops : RunsUnder KeepsGreatestId (freshlySeeded inputs) ops) :
    IdsNeverReused (freshlySeeded inputs) ops := by
  refine ⟨nodup_createdIds hops, ?_⟩
  rintro ops₁ ops₂ rfl card hcard hagain
  have hlt := lt_of_mem_createdIds (runsUnder_append.mp hops).2 hagain
  have hle := le_maxId hcard
  omega

end greatest

/-- A discard of a card that is not the newest, and another creation. -/
def discardOlder : List Operation :=
  [.card (.create ⟨101, 102, .sqlite⟩ sampleActor { title := "Pump" } {}),
    .card (.create ⟨101, 102, .sqlite⟩ sampleActor { title := "Fan" } {}),
    .card (.delete sampleActor 1 1),
    .card (.create ⟨101, 102, .sqlite⟩ sampleActor { title := "Door" } {})]

theorem ids_never_reused_older :
    @IdsNeverReused samplePlatform (freshlySeeded sampleTicks) discardOlder :=
  @ids_never_reused samplePlatform sampleTicks discardOlder
    ⟨rfl, rfl, fun _ _ => by decide +kernel, rfl, trivial⟩

example : @createdIds samplePlatform (freshlySeeded sampleTicks) discardOlder = [1, 2, 3] := by
  decide +kernel

/-- The next card after a discard of the newest one. -/
def discardNewest : List Operation :=
  [.card (.create ⟨101, 102, .sqlite⟩ sampleActor { title := "Pump" } {}),
    .card (.delete sampleActor 1 1),
    .card (.create ⟨101, 102, .sqlite⟩ sampleActor { title := "Fan" } {})]

theorem ids_never_reused_fails : ¬ ∀ (_ : Platform) (inputs : ℕ → Tick) (ops : List Operation),
    RunsUnder (fun _ op => ∀ deps actor raw options, op = .card (.create deps actor raw options) →
      deps.dialect = .sqlite) (freshlySeeded inputs) ops →
    IdsNeverReused (freshlySeeded inputs) ops := by
  intro h
  have hnodup := (h samplePlatform sampleTicks discardNewest ?_).1
  · revert hnodup
    decide +kernel
  · refine ⟨?_, ?_, ?_, trivial⟩ <;> rintro deps actor raw options ⟨⟩ <;> rfl

/-- An edit that names version 1 of the first card is accepted against the second one. -/
example : (@CardOperation.perform samplePlatform
    (@run samplePlatform (freshlySeeded sampleTicks) discardNewest)
    (.update ⟨101, 102, .sqlite⟩ sampleActor 1 { title := some "Pump 2", expectedVersion := 1 })).1.isOk =
      true := by
  decide +kernel

end AiKanban.Invariants
