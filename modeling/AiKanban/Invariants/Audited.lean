import AiKanban.Invariants.Dossier

/-!
# Audited changes

A write of an audited field appends an event about its card and moves the version on. The
deletion of a location takes it off the cards that name it, and does neither.
-/
namespace AiKanban.Invariants

open Domain Db Relational Services Server Transactions Effects
open Application

/-- The audited fields of a card, its lane, its resolution and its flags. -/
structure AuditedState where
  title : String
  description : String
  priority : Priority
  estimateMinutes : Option ℕ
  assigneeId : Option Uuid
  locationId : Option Uuid
  tags : List String
  waitingReason : Option WaitingReason
  expectedResumeAt : Option Day
  laneId : Uuid
  resolution : Option Resolution
  blocked : Bool
  blockedReason : Option String
  archivedAt : Option Instant
  deriving DecidableEq

def auditedState (s : Store) (card : Card) : AuditedState where
  title := card.title
  description := card.description
  priority := card.priority
  estimateMinutes := card.estimateMinutes
  assigneeId := card.assigneeId
  locationId := card.locationId
  tags := tagNames s card.id
  waitingReason := card.waitingReason
  expectedResumeAt := card.expectedResumeAt
  laneId := card.laneId
  resolution := card.resolution
  blocked := card.blocked
  blockedReason := card.blockedReason
  archivedAt := card.archivedAt

/-- A card that survives with another audited state has a greater version and a new event. -/
def AuditsCard (s s' : Store) (cardId : ℕ) : Prop :=
  ∀ card card', s.cards.find? cardId = some card → s'.cards.find? cardId = some card' →
    auditedState s card ≠ auditedState s' card' →
    card.version < card'.version ∧ ∃ events,
      s'.cardEvents.rows = s.cardEvents.rows ++ events ∧ ∃ e ∈ events, e.cardId = cardId

/-- A unit of work audits what it changes. -/
def Audits (w w' : World Store Tick) : Prop := ∀ cardId, AuditsCard w.store w'.store cardId

/-- The operation is a deletion that is accepted and takes a location off some card. -/
def ClearsLocations (w : World Store Tick) : Operation → Prop
  | .administration (.deleteLocation boardId actor locationId) =>
      Runs (ensureGranted actor .manageLocations boardId) w () w ∧
        (∃ location, w.store.locations.find? locationId = some location) ∧
        ∃ card ∈ w.store.cards.rows, ∃ id, card.locationId = some id ∧
          id ∈ LocationRepository.collectSubtree w.store.locations.rows locationId
  | _ => False

theorem ClearsLocations.of_store {w w₁ : World Store Tick} {op : Operation}
    (hstore : w₁.store = w.store) (h : ClearsLocations w₁ op) : ClearsLocations w op := by
  cases op with
  | administration op =>
    cases op with
    | deleteLocation boardId actor locationId =>
      obtain ⟨hgranted, hfound, hcards⟩ := h
      rw [hstore] at hfound hcards
      exact ⟨hgranted.of_store (readsOnly_ensureGranted _ _ _) hstore.symm, hfound, hcards⟩
    | _ => exact h
  | _ => exact h

variable {w w' : World Store Tick} {cardId : ℕ}

theorem auditsCard_of_same {s s' : Store} (hcard : s'.cards.find? cardId = s.cards.find? cardId)
    (htags : tagNames s' cardId = tagNames s cardId) : AuditsCard s s' cardId := by
  intro card card' hfound hfound' hne
  rw [hfound, hfound', Option.some.injEq] at hcard
  have hid : card.id = cardId := Table.find?_key hfound
  rw [hcard, auditedState, auditedState, hid, htags] at hne
  exact absurd rfl hne

theorem auditsCard_of_dossier {s s' : Store} (h : dossier s' cardId = dossier s cardId) :
    AuditsCard s s' cardId :=
  auditsCard_of_same (congrArg Dossier.card h) (congrArg Dossier.tags h)

theorem auditsCard_of_tables {s s' : Store} (hcards : s'.cards.rows = s.cards.rows)
    (htags : s'.tags = s.tags) (hcardTags : s'.cardTags = s.cardTags) :
    AuditsCard s s' cardId := by
  refine auditsCard_of_same ?_ ?_
  · rw [Table.find?, hcards, Table.find?]
  · rw [tagNames, TagRepository.cardTagRows, htags, hcardTags, tagNames, TagRepository.cardTagRows]

theorem auditedState_congr {s s' : Store} {card card' : Card}
    (htags : tagNames s' card.id = tagNames s card.id)
    (hrow : { card with
        resumeAlertedAt := card'.resumeAlertedAt, updatedAt := card'.updatedAt } = card') :
    auditedState s' card' = auditedState s card := by
  rw [← hrow]
  simp only [auditedState, htags]

section effects

/-- An alert marks a card without touching what is audited. -/
theorem auditsCard_alerted (hknown : TagsKnown w.store) (h : Alerted w w') (cardId : ℕ) :
    AuditsCard w.store w'.store cardId := by
  rcases h.cards cardId with hsame | ⟨card, nowIso, hfound, -, -, hmarked⟩
  · exact auditsCard_of_dossier (dossier_alerted hknown h hsame)
  · intro found found' hfound₁ hfound' hne
    rw [hfound] at hfound₁
    rw [hmarked] at hfound'
    cases hfound₁
    cases hfound'
    have hcardTags : w'.store.cardTags = w.store.cardTags := h.frame .cardTags (by decide)
    have htags : tagNames w'.store card.id = tagNames w.store card.id :=
      tagNames_congr hknown (.of_tags (h.frame .tags (by decide)))
        (by rw [cardTagsOf, hcardTags, cardTagsOf])
    exact absurd (auditedState_congr htags rfl).symm hne

/-- Locations no card names are deleted without a trace on the cards. -/
theorem unlocated_cards {subtree : List Uuid} (h : Unlocated w w' subtree)
    (hnone : ∀ card ∈ w.store.cards.rows, ∀ id, card.locationId = some id → id ∉ subtree) :
    w'.store.cards.rows = w.store.cards.rows := by
  rw [h.cards]
  refine (List.map_congr_left fun card hcard => ?_).trans (List.map_id _)
  refine if_neg fun hany => ?_
  obtain ⟨id, hid, hmem⟩ := (Option.any_eq_true _ _).mp hany
  exact hnone card hcard id hid (List.contains_iff_mem.mp hmem)

variable [Platform]

theorem auditsCard_changed {op : CardOperation} {card next : Card} {events : List CardEvent}
    (h : Changed op w w' card next events) : AuditsCard w.store w'.store card.id := by
  intro found found' hfound hfound' _
  have hr := h.rewritten
  rw [hr.found] at hfound
  rw [hr.find?_self] at hfound'
  cases hfound
  cases hfound'
  have hversion := h.change.version
  refine ⟨by omega, events, hr.log, ?_⟩
  have hne : events ≠ [] := fun hnil => h.change.bodies_ne_nil (by simp [hnil])
  obtain ⟨e, he⟩ := List.exists_mem_of_ne_nil events hne
  exact ⟨e, he, hr.about e he⟩

theorem audits_effect {op : Operation} (hknown : TagsKnown w.store) (h : Effect w w' op)
    (hclears : ¬ ClearsLocations w op) : Audits w w' := by
  intro cardId
  cases h with
  | untouched h => exact auditsCard_of_dossier (dossier_untouched hknown h)
  | @created _ _ _ _ created _ _ h =>
    by_cases hid : cardId = created.id
    · intro card _ hcard
      have hnone : w.store.cards.find? created.id = none := Table.find?_of_accepts h.accepted
      rw [hid, hnone] at hcard
      cases hcard
    · exact auditsCard_of_dossier (dossier_created hknown h hid)
  | @changed _ card _ _ h =>
    by_cases hid : cardId = card.id
    · rw [hid]
      exact auditsCard_changed h
    · exact auditsCard_of_dossier (dossier_changed hknown h hid)
  | @discarded _ deletedId _ _ _ h =>
    by_cases hid : cardId = deletedId
    · intro card card' _ hcard'
      rw [hid, find?_discarded_self h] at hcard'
      cases hcard'
    · exact auditsCard_of_same (find?_discarded h hid) (tagNames_discarded h hid)
  | alerted h => exact auditsCard_alerted hknown h cardId
  | noted h =>
    exact auditsCard_of_tables (congrArg Table.rows (h.frame .cards (by decide)))
      (h.frame .tags (by decide)) (h.frame .cardTags (by decide))
  | related _ _ h | unrelated _ h =>
    refine auditsCard_of_tables ?_ ?_ ?_ <;> rw [h.store]
  | unlocated granted found h =>
    refine auditsCard_of_tables (unlocated_cards h fun card hcard id hid hmem => ?_)
      (h.frame .tags (by decide) (by decide)) (h.frame .cardTags (by decide) (by decide))
    exact hclears ⟨granted, found, card, hcard, id, hid, hmem⟩

/-- The tags the cards name stay there through the units of work of an operation. -/
theorem tagsKnown_units (op : Operation) (hknown : TagsKnown w.store) :
    ∀ w₁ ∈ w :: op.units w, TagsKnown w₁.store :=
  List.IsChain.induction (fun w₁ => TagsKnown w₁.store) _ (units_chain w op)
    (fun _ _ hunit hknown₁ => tagsKnown_effect hknown₁ hunit.effect) fun _ => hknown

theorem audits_units {op : Operation} (hknown : TagsKnown w.store)
    (hclears : ¬ ClearsLocations w op) : List.IsChain Audits (w :: op.units w) := by
  refine (units_chain w op).imp_of_mem_imp fun w₁ w₂ hw₁ _ hunit => ?_
  refine audits_effect (tagsKnown_units op hknown w₁ hw₁) hunit.effect fun hclears₁ => hclears ?_
  rcases hunit.start with hstore | ⟨actor, rfl⟩
  · exact hclears₁.of_store hstore
  · exact hclears₁.elim

/-- A deletion that takes a location off a card leaves the card's version as it was. -/
theorem not_audits_clearing {op : Operation} (h : ClearsLocations w op) :
    ¬ List.IsChain Audits (w :: op.units w) := by
  cases op with
  | administration op =>
    cases op with
    | deleteLocation boardId actor locationId =>
      obtain ⟨hgranted, hfound, card, hcard, id, hid, hmem⟩ := h
      obtain ⟨w', hdelete⟩ := runs_deleteLocation_of_found hfound
      have hrun : Runs (LocationAdminService.delete boardId actor locationId) w () w' :=
        runs_bind_iff.mpr ⟨(), w, hgranted, hdelete⟩
      obtain ⟨-, hunlocated⟩ := runs_deleteLocation hdelete
      intro hchain
      have hunit : Operation.units w (.administration (.deleteLocation boardId actor locationId)) =
          [w'] := by
        have htransact := congrArg Prod.snd (transact_ok_iff.mpr hrun)
        exact congrArg (fun w₁ => [w₁]) htransact
      rw [hunit] at hchain
      have haudits := List.isChain_pair.mp hchain card.id card _ (Table.find?_of_mem hcard)
        (find?_unlocated hunlocated hcard hid hmem) fun heq => ?_
      · exact absurd haudits.1 (lt_irrefl _)
      · have hlocation := congrArg AuditedState.locationId heq
        simp only [auditedState, hid] at hlocation
        cases hlocation
    | _ => exact h.elim
  | _ => exact h.elim

/-- In every reachable store, every unit of work of an operation audits what it changes exactly
when the operation does not take a location off a card. -/
theorem audited_iff (inputs : ℕ → Tick) (ops : List Operation) (op : Operation) :
    List.IsChain Audits
        (run (freshlySeeded inputs) ops :: op.units (run (freshlySeeded inputs) ops)) ↔
      ¬ ClearsLocations (run (freshlySeeded inputs) ops) op :=
  ⟨fun hchain hclears => not_audits_clearing hclears hchain,
    audits_units (tagsKnown_run inputs ops)⟩

end effects

/-- A card in a building. -/
def locatedRun : List Operation :=
  [.administration (.createLocation 101 sampleActor { kind := .building, name := "North" }),
    .card (.create ⟨101, 102, .sqlite⟩ sampleActor { title := "Pump", locationId := some 111 } {})]

/-- The building goes, and its card loses it without an event. -/
theorem audited_fails : ¬ ∀ (_ : Platform) (inputs : ℕ → Tick) (ops : List Operation)
    (op : Operation), List.IsChain Audits
      (run (freshlySeeded inputs) ops :: op.units (run (freshlySeeded inputs) ops)) := by
  intro h
  have hchain := h samplePlatform sampleTicks locatedRun
    (.administration (.deleteLocation 101 sampleActor 111))
  simp only [Operation.units] at hchain
  have haudits := List.isChain_pair.mp hchain 1
  have hsilent :
      ∃ card ∈ (@run samplePlatform (freshlySeeded sampleTicks) locatedRun).store.cards.find? 1,
      ∃ card' ∈ (@step samplePlatform (@run samplePlatform (freshlySeeded sampleTicks) locatedRun)
        (.administration (.deleteLocation 101 sampleActor 111))).store.cards.find? 1,
      card.locationId ≠ card'.locationId ∧ ¬ card.version < card'.version := by
    decide +kernel
  obtain ⟨card, hcard, card', hcard', hne, hversion⟩ := hsilent
  refine hversion (haudits card card' hcard hcard' fun heq => hne ?_).1
  exact congrArg AuditedState.locationId heq

end AiKanban.Invariants
