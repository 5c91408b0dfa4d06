import AiKanban.Effects.Changes

/-!
# Creating, discarding, expiring and alerting

The operations of the card service that do more, or less, than rewrite one card:
a creation adds a row, a discard removes one with everything that refers to it, the
sweep archives one card per unit of work, and a claim marks cards without an event.
-/
namespace AiKanban.Effects

open Domain Db Policy Relational Services Services.CardService Transactions
open Application (CardOperation)

/-- A unit of work added a card, its tags and its first event. -/
structure Created (deps : CardServiceDeps) (w w' : World Store Tick) (card : Card)
    (resolved : List Tag) (event : CardEvent) : Prop where
  accepted : w.store.cards.accepts card = true
  cards : w'.store.cards = w.store.cards.insert card
  row : ∃ input options origin reporterId lane position nowIso,
    entryLane w.store deps.boardId = some lane ∧
      card = newCard deps input options origin reporterId lane.id card.id position nowIso
  ticket : deps.dialect = .sqlite → card.id = CardRepository.maxId w.store.cards.rows + 1
  tags : Retagged w.store w'.store card.id resolved
  log : w'.store.cardEvents.rows = w.store.cardEvents.rows ++ [event]
  about : event.cardId = card.id
  body : event.body = .created ⟨card, resolved.map (·.name)⟩
  stamped : Stamped w.inputs w.drawn [event] w'.drawn
  inputs : w'.inputs = w.inputs
  frame : ∀ name, name ∉ rewriteTables → w.store.SameTable name w'.store

/-- A unit of work removed a card and every row that refers to it. -/
structure Discarded (w w' : World Store Tick) (cardId : ℕ) : Prop where
  cards : w'.store.cards = w.store.cards.remove fun r => r.id == cardId
  cardTags : w'.store.cardTags = w.store.cardTags.remove fun r => r.cardId == cardId
  comments : w'.store.comments = w.store.comments.remove fun r => r.cardId == cardId
  attachments : w'.store.attachments = w.store.attachments.remove fun r => r.cardId == cardId
  cardEvents : w'.store.cardEvents = w.store.cardEvents.remove fun r => r.cardId == cardId
  cardRelations : w'.store.cardRelations =
    w.store.cardRelations.remove fun r => r.fromCardId == cardId || r.toCardId == cardId
  tags : w'.store.tags = w.store.tags
  lanes : w'.store.lanes = w.store.lanes
  inputs : w'.inputs = w.inputs
  drawn : w.drawn ≤ w'.drawn

/-- The card is one the claim may mark: in a lane with the waiting key. -/
def InWaitingLane (s : Store) (card : Card) : Prop :=
  ∃ lane ∈ s.lanes.rows, lane.id = card.laneId ∧ lane.key = waitingKey

/-- A unit of work marked active cards of the waiting lane as alerted, and did nothing else. -/
structure Alerted (w w' : World Store Tick) : Prop where
  cards : ∀ id, w'.store.cards.find? id = w.store.cards.find? id ∨
    ∃ card nowIso, w.store.cards.find? id = some card ∧ card.archivedAt = none ∧
      InWaitingLane w.store card ∧
      w'.store.cards.find? id = some { card with resumeAlertedAt := some nowIso }
  frame : ∀ name, name ≠ .cards → w.store.SameTable name w'.store
  inputs : w'.inputs = w.inputs
  drawn : w.drawn ≤ w'.drawn

theorem Alerted.refl (w : World Store Tick) : Alerted w w :=
  ⟨fun _ => .inl rfl, fun name _ => .refl name _, rfl, le_rfl⟩

theorem Alerted.trans {w₁ w₂ w₃ : World Store Tick} (h : Alerted w₁ w₂) (h' : Alerted w₂ w₃) :
    Alerted w₁ w₃ where
  cards := by
    have hlanes : w₂.store.lanes = w₁.store.lanes := h.frame .lanes (by decide)
    intro id
    rcases h'.cards id with hsame' | ⟨card', now', hfound', hactive', hwaiting', hmarked'⟩
    · rw [hsame']
      exact h.cards id
    · rcases h.cards id with hsame | ⟨card, now, hfound, hactive, hwaiting, hmarked⟩
      · refine .inr ⟨card', now', hsame ▸ hfound', hactive', ?_, hmarked'⟩
        unfold InWaitingLane at hwaiting' ⊢
        rwa [hlanes] at hwaiting'
      · rw [hmarked, Option.some.injEq] at hfound'
        subst hfound'
        exact .inr ⟨card, now', hfound, hactive, hwaiting, hmarked'⟩
  frame := fun name hname => (h.frame name hname).trans (h'.frame name hname)
  inputs := h'.inputs.trans h.inputs
  drawn := h.drawn.trans h'.drawn

theorem Alerted.of_drew {w w' : World Store Tick} (h : Drew w w') : Alerted w w' where
  cards := fun id => .inl (by rw [h.store])
  frame := fun name _ => sameTable_of_store h.store
  inputs := h.inputs
  drawn := h.drawn

variable {w w' : World Store Tick}

section discarding

theorem readsOnly_deleteChecks (actor : Actor) (cardId expectedVersion : ℕ) :
    (deleteChecks actor cardId expectedVersion).ReadsOnly :=
  (readsOnly_accessibleCard _ _).bind fun _ => (readsOnly_activePolicy _).bind fun _ =>
    (readsOnly_decidePolicy _).bind fun _ => (Program.readsOnly_ensure _ _).bind fun _ =>
      (readsOnly_laneOfCard _).bind fun _ => (readsOnly_firstLane _).bind fun _ =>
        (Program.readsOnly_ensure _ _).bind fun _ => Program.readsOnly_pure _

/-- What an accepted discard has checked. -/
theorem runs_deleteChecks {actor : Actor} {cardId expectedVersion : ℕ} {card : Card}
    (h : Runs (deleteChecks actor cardId expectedVersion) w card w') :
    w' = w ∧ w.store.cards.find? cardId = some card ∧ card.version = expectedVersion ∧
      ∃ lane, LaneOf w.store card lane ∧ entryLane w.store card.boardId = some lane := by
  refine ⟨h.of_readsOnly (readsOnly_deleteChecks _ _ _), ?_⟩
  simp only [deleteChecks, runs_bind_iff, runs_decidePolicy_iff, runs_ensureVersion_iff,
    runs_firstLane_iff, runs_ensure_iff, runs_pure_iff] at h
  obtain ⟨found, _, hfound, policy, _, hpolicy, _, _, ⟨-, rfl⟩, _, _, ⟨hversion, rfl⟩, lane, w₀, hlane,
    entry, _, ⟨hentry, rfl⟩, _, _, ⟨hsame, rfl⟩, rfl, rfl⟩ := h
  obtain ⟨rfl, hfound⟩ := runs_accessibleCard hfound
  obtain rfl := runs_activePolicy hpolicy
  obtain ⟨rfl, hof⟩ := runs_laneOfCard hlane
  have heq : lane = entry := lane_eq_of_id hof.1 (entryLane_mem hentry).1 (by simpa using hsame)
  exact ⟨hfound, hversion, lane, hof, heq ▸ hentry⟩

/-- The store without a card and what refers to it. -/
def withoutCard (s : Store) (cardId : ℕ) : Store := { s with
  cardTags := s.cardTags.remove fun r => r.cardId == cardId
  comments := s.comments.remove fun r => r.cardId == cardId
  attachments := s.attachments.remove fun r => r.cardId == cardId
  cardEvents := s.cardEvents.remove fun r => r.cardId == cardId
  cardRelations := s.cardRelations.remove fun r => r.fromCardId == cardId || r.toCardId == cardId
  cardWatchers := s.cardWatchers.remove fun r => r.cardId == cardId
  notifications := s.notifications.remove fun r => r.cardId == cardId
  cards := s.cards.remove fun r => r.id == cardId }

/-- Nothing stands against deleting a card that is there. -/
theorem runs_hardDelete_iff {cardId : ℕ} {keys : List Uuid} :
    Runs (CardRepository.hardDelete cardId) w keys w' ↔
      (∃ card, w.store.cards.find? cardId = some card) ∧
        keys = (w.store.attachments.rows.filter fun a => a.cardId == cardId).map (·.storageKey) ∧
        w' = w.withStore (withoutCard w.store cardId) := by
  simp only [CardRepository.hardDelete, CardRepository.findById, runs_bind_iff, runs_selectKey_iff,
    runs_require_iff, runs_read_iff, runs_deleteWhere_iff, runs_pure_iff, and_assoc,
    exists_and_left, exists_eq_left, exists_const, table_cards, table_cardTags, table_comments,
    table_attachments, table_cardEvents, table_cardRelations, table_cardWatchers,
    table_notifications, put_cards, put_cardTags, put_comments, put_attachments, put_cardEvents,
    put_cardRelations, put_cardWatchers, put_notifications, World.withStore_store,
    World.withStore_withStore]
  exact exists_and_right

theorem runs_deleteBody {actor : Actor} {cardId expectedVersion : ℕ} {keys : List Uuid}
    (h : Runs (deleteBody actor cardId expectedVersion) w keys w') :
    (∃ card, Runs (deleteChecks actor cardId expectedVersion) w card w) ∧ Discarded w w' cardId := by
  simp only [deleteBody, runs_bind_iff] at h
  obtain ⟨card, _, hchecks, hdelete⟩ := h
  obtain rfl := hchecks.of_readsOnly (readsOnly_deleteChecks _ _ _)
  obtain ⟨-, -, rfl⟩ := runs_hardDelete_iff.mp hdelete
  exact ⟨⟨card, hchecks⟩, ⟨rfl, rfl, rfl, rfl, rfl, rfl, rfl, rfl, rfl, le_rfl⟩⟩

end discarding

section creating

theorem runs_nextCardId {dialect : Dialect} {id : ℕ}
    (h : Runs (CardRepository.nextCardId dialect) w id w') :
    Drew w w' ∧ (dialect = .sqlite → id = CardRepository.maxId w.store.cards.rows + 1) := by
  cases dialect with
  | sqlite =>
    obtain ⟨rfl, rfl⟩ := runs_read_iff.mp h
    exact ⟨.refl _, fun _ => rfl⟩
  | postgres =>
    simp only [CardRepository.nextCardId, runs_bind_iff, runs_input_iff, runs_pure_iff] at h
    obtain ⟨_, _, ⟨rfl, rfl⟩, rfl, rfl⟩ := h
    exact ⟨.tick w, fun hd => by cases hd⟩

/-- Adding watchers leaves every other table alone. -/
theorem runs_watchers {p : Tx Unit} {u : Unit} (h : Runs p w u w')
    (hp : Confined [.cardWatchers] p) :
    (∀ name, name ≠ .cardWatchers → w.store.SameTable name w'.store) ∧ w'.inputs = w.inputs ∧
      w.drawn ≤ w'.drawn :=
  ⟨fun _ hname => sameTable_of_confined h hp (by simpa using hname), h.inputs, h.drawn_le⟩

variable [Platform]

/-- The writes of a creation, once its row is made. -/
theorem runs_insertCard {deps : CardServiceDeps} {actor : Actor} {card : Card} {reporterId : Uuid}
    {nowIso : Instant} {names : List String} {r : Card} {w₀ : World Store Tick}
    (h : Runs (do
      CardRepository.insert card
      CardWatcherRepository.add card.id reporterId nowIso
      forPresent card.assigneeId fun assigneeId =>
        CardWatcherRepository.add card.id assigneeId nowIso
      let tags ← resolveTags names
      TagRepository.setCardTags card.id (tags.map (·.id))
      let event ← makeEvent actor card.id (.created ⟨card, tags.map (·.name)⟩)
      EventRepository.append event
      return card) w r w') (hdrew : Drew w₀ w)
    (hrow : ∃ input options origin reporterId lane position nowIso,
      entryLane w₀.store deps.boardId = some lane ∧
        card = newCard deps input options origin reporterId lane.id card.id position nowIso)
    (hticket : deps.dialect = .sqlite → card.id = CardRepository.maxId w₀.store.cards.rows + 1) :
    ∃ resolved event, Created deps w₀ w' r resolved event := by
  simp only [CardRepository.insert, runs_bind_iff, runs_insertRow_iff, table_cards, put_cards,
    runs_makeEvent_iff, runs_pure_iff] at h
  obtain ⟨_, _, ⟨haccepts, -, rfl⟩, _, w₁, hwatch, _, w₂, hassignee, tags, w₃, hresolve, _, w₄, hset,
    event, _, ⟨rfl, rfl⟩, _, w₅, happend, rfl, rfl⟩ := h
  obtain ⟨hframe₁, hi₁, hd₁⟩ := runs_watchers hwatch (confined_watch (by simp) _ _ _)
  obtain ⟨hframe₂, hi₂, hd₂⟩ :=
    runs_watchers hassignee (confined_forPresent fun _ => confined_watch (by simp) _ _ _)
  obtain ⟨honly, hknown⟩ := runs_resolveTags hresolve
  obtain ⟨hs₄, hretag, hi₄, hd₄⟩ := runs_setCardTags hset hknown
  obtain ⟨hs₅, hlog, hi₅, hd₅⟩ := runs_append happend
  simp only [World.tick_store, World.tick_inputs, World.tick_drawn, World.withStore_inputs,
    World.withStore_drawn] at hs₅ hlog hi₅ hd₅ hi₁ hd₁
  rw [hdrew.store] at haccepts
  have hs₂ : ∀ name, name ≠ .cardWatchers →
      ({ w₀.store with cards := w₀.store.cards.insert r } : Store).SameTable name w₂.store := by
    intro name hname
    have hsame := (hframe₁ name hname).trans (hframe₂ name hname)
    rwa [World.withStore_store, hdrew.store] at hsame
  have hcards₂ : w₂.store.cards = w₀.store.cards.insert r := hs₂ .cards (by decide)
  have hlog₂ : w₂.store.cardEvents = w₀.store.cardEvents := hs₂ .cardEvents (by decide)
  have htags₂ : w₂.store.tags = w₀.store.tags := hs₂ .tags (by decide)
  have hcardTags₂ : w₂.store.cardTags = w₀.store.cardTags := hs₂ .cardTags (by decide)
  have hs₅' : w'.store = { w₂.store with
      tags := w'.store.tags, cardTags := w'.store.cardTags, cardEvents := w'.store.cardEvents } := by
    rw [hs₅, hs₄, honly.store]
  refine ⟨tags, envelope actor r.id (.created ⟨r, tags.map (·.name)⟩) w₄.peek.id w₄.tick.peek.now, ?_⟩
  exact {
    accepted := haccepts
    cards := by rw [hs₅', ← hcards₂]
    row := hrow
    ticket := hticket
    tags := by
      refine ⟨?_, ?_, ?_⟩
      · rw [hs₅, hretag.rows, honly.store, hcardTags₂]
      · rw [hs₅]
        intro t ht
        exact hretag.grow t (honly.grow t (htags₂ ▸ ht))
      · rw [hs₅]
        exact hretag.known
    log := by rw [hlog, hs₄, honly.store, hlog₂]
    about := rfl
    body := rfl
    stamped := by
      have hst := stamped_envelope w₄ actor r.id (.created ⟨r, tags.map (·.name)⟩)
      rw [hi₄, honly.inputs, hi₂, hi₁, hdrew.inputs] at hst
      have h₀ := hdrew.drawn
      have h₃ := honly.drawn
      exact hst.widen (by omega) (by simp only [World.tick_drawn]; omega)
    inputs := by rw [hi₅, hi₄, honly.inputs, hi₂, hi₁, hdrew.inputs]
    frame := by
      intro name hname
      have hsame := hs₂ name
      rw [hs₅']
      cases name <;> first | exact hsame (by decide) | exact absurd (by decide) hname }

/-- What an accepted creation does, and where it puts the card. -/
theorem runs_createBody {deps : CardServiceDeps} {actor : Actor} {input : CreateCardInput}
    {options : CreateCardOptions} {origin : CardOrigin} {r : Card}
    (h : Runs (createBody deps actor input options origin) w r w') :
    ∃ resolved event, Created deps w w' r resolved event := by
  unfold createBody at h
  replace h := runs_bind_iff.mp h
  obtain ⟨_, _, haccess, h⟩ := h
  obtain ⟨rfl, -⟩ := runs_requireBoardAccess haccess
  replace h := runs_bind_iff.mp h
  obtain ⟨policy, _, hpolicy, h⟩ := h
  obtain rfl := runs_activePolicy hpolicy
  replace h := runs_bind_iff.mp h
  obtain ⟨_, _, hdecided, h⟩ := h
  obtain ⟨-, rfl⟩ := runs_decidePolicy_iff.mp hdecided
  replace h := runs_bind_iff.mp h
  obtain ⟨_, _, hread, h⟩ := h
  obtain ⟨-, rfl⟩ := runs_read_iff.mp hread
  replace h := runs_bind_iff.mp h
  obtain ⟨_, _, hreporter, h⟩ := h
  obtain ⟨-, rfl⟩ := runs_requireFound_iff.mp hreporter
  replace h := runs_bind_iff.mp h
  obtain ⟨_, _, hassignee, h⟩ := h
  obtain rfl := hassignee.of_readsOnly
    (readsOnly_forPresent fun _ => readsOnly_requireAssignable _ _ _)
  replace h := runs_bind_iff.mp h
  obtain ⟨_, _, hlocation, h⟩ := h
  obtain rfl := hlocation.of_readsOnly (readsOnly_forPresent readsOnly_requireLocation)
  replace h := runs_bind_iff.mp h
  obtain ⟨entry, _, hentry, h⟩ := h
  obtain ⟨hentry, rfl⟩ := runs_firstLane_iff.mp hentry
  replace h := runs_bind_iff.mp h
  obtain ⟨top, w₀, htop, h⟩ := h
  obtain rfl := htop.of_readsOnly (readsOnly_edgeOfLane _ _)
  replace h := runs_bind_iff.mp h
  obtain ⟨nowIso, _, hnow, h⟩ := h
  obtain ⟨rfl, rfl⟩ := runs_clockNow_iff.mp hnow
  replace h := runs_bind_iff.mp h
  obtain ⟨id, w₁, hid, h⟩ := h
  obtain ⟨hdrew, hticket⟩ := runs_nextCardId hid
  replace h := runs_bind_iff.mp h
  obtain ⟨position, w₂, hposition, h⟩ := h
  obtain rfl := hposition.of_readsOnly (readsOnly_generateKeyBetween _ _)
  exact runs_insertCard h ((Drew.tick w₀).trans hdrew) ⟨_, _, _, _, _, _, _, hentry, rfl⟩ hticket

end creating

section querying

theorem ids_nodup (t : Table Card) : (t.rows.map (·.id)).Nodup := t.keys_nodup

/-- The rows a query of the card repository lists. -/
def queried (s : Store) (filter : CardRepository.CardQueryFilter) : List Card :=
  newestFirst (·.createdAt) (·.id) (s.cards.rows.filter filter.matches)

theorem mem_queried {s : Store} {filter : CardRepository.CardQueryFilter} {laneId : Uuid}
    (hlane : filter.laneId = some laneId) {c : Card} (hc : c ∈ queried s filter) :
    c ∈ s.cards.rows ∧ c.archivedAt = none ∧ laneId = c.laneId := by
  rw [queried, mem_newestFirst, List.mem_filter] at hc
  have hmatches := hc.2
  simp only [CardRepository.CardQueryFilter.matches, hlane, Option.all_some, Bool.and_eq_true,
    Option.isNone_iff_eq_none, beq_iff_eq] at hmatches
  exact ⟨hc.1, hmatches.1.1.1, hmatches.1.2⟩

theorem ids_nodup_queried (s : Store) (filter : CardRepository.CardQueryFilter) :
    ((queried s filter).map (·.id)).Nodup := by
  have hperm : (queried s filter).Perm (s.cards.rows.filter filter.matches) :=
    List.perm_insertionSort _ _
  refine (hperm.map (·.id)).nodup_iff.mpr ?_
  exact (ids_nodup s.cards).sublist (List.filter_sublist.map _)

@[simp] theorem runs_query_iff {filter : CardRepository.CardQueryFilter} {cards : List Card} :
    Runs (CardRepository.query filter) w cards w' ↔ cards = queried w.store filter ∧ w' = w :=
  runs_read_iff

end querying

section expiring

/-- The card is in a lane with the done key. -/
def InDoneLane (s : Store) (card : Card) : Prop :=
  ∃ lane ∈ s.lanes.rows, lane.id = card.laneId ∧ lane.key = doneKey

/-- The sweep lists cards of done lanes only. -/
theorem runs_expiryCandidates {cards : List Card} (h : Runs expiryCandidates w cards w') :
    w' = w ∧ ∀ c ∈ cards, InDoneLane w.store c := by
  simp only [expiryCandidates, BoardRepository.list, runs_bind_iff, runs_read_iff] at h
  obtain ⟨boards, w₀, ⟨rfl, rfl⟩, hfold⟩ := h
  have hinv : w' = w₀ ∧ ∀ c ∈ cards, InDoneLane w₀.store c := by
    refine Runs.foldM_induction (I := fun cards w₁ => w₁ = w₀ ∧ ∀ c ∈ cards, InDoneLane w₀.store c)
      ?_ ⟨rfl, by simp⟩ hfold
    rintro acc board - w₁ acc' w₂ ⟨rfl, hacc⟩ hstep
    simp only [runs_bind_iff, runs_findByKey_iff] at hstep
    obtain ⟨found, w₁, ⟨rfl, rfl⟩, hstep⟩ := hstep
    cases hdone : LaneRepository.laneWithKey w₁.store board.id doneKey with
    | none =>
      simp only [hdone, runs_pure_iff] at hstep
      obtain ⟨rfl, rfl⟩ := hstep
      exact ⟨rfl, hacc⟩
    | some done =>
      simp only [hdone, runs_bind_iff, runs_query_iff, runs_pure_iff] at hstep
      obtain ⟨_, _, ⟨rfl, rfl⟩, rfl, rfl⟩ := hstep
      refine ⟨rfl, fun c hc => ?_⟩
      rcases List.mem_append.mp hc with hc | hc
      · exact hacc c hc
      · obtain ⟨hmem, -, hkey⟩ := laneWithKey_mem hdone
        exact ⟨done, hmem, (mem_queried rfl hc).2.2, hkey⟩
  exact hinv

theorem readsOnly_enteredDoneAt (card : Card) : (enteredDoneAt card).ReadsOnly :=
  (Program.readsOnly_read _).bind fun _ => Program.readsOnly_pure _

/-- One candidate is archived, unless it has changed since it was listed. -/
theorem runs_archiveExpiredBody [Platform] {actor : Actor} {cutoffIso : Instant} {candidate : Card}
    {r : Option Card} (h : Runs (archiveExpiredBody actor cutoffIso candidate) w r w')
    (hdone : InDoneLane w.store candidate) :
    w' = w ∨ ∃ card next event, Changed (.archiveExpired actor) w w' card next [event] := by
  simp only [archiveExpiredBody, CardRepository.findById, runs_bind_iff, runs_selectKey_iff,
    table_cards] at h
  obtain ⟨found, w₀, ⟨rfl, rfl⟩, h⟩ := h
  cases hfound : w₀.store.cards.find? candidate.id with
  | none =>
    simp only [hfound, runs_pure_iff] at h
    exact .inl h.2
  | some card =>
    simp only [hfound, BoardRepository.findById, runs_ite_iff, runs_bind_iff, runs_selectKey_iff,
      runs_pure_iff, archiveCard, runs_clockNow_iff] at h
    rcases h with ⟨-, -, rfl⟩ | ⟨hcond, _, _, ⟨rfl, rfl⟩, h⟩
    · exact .inl rfl
    · rcases h with ⟨-, -, rfl⟩ | ⟨-, _, _, haccess, entered, w₁, hentered, h⟩
      · exact .inl rfl
      · obtain ⟨rfl, -⟩ := runs_requireBoardAccess haccess
        obtain rfl := hentered.of_readsOnly (readsOnly_enteredDoneAt _)
        rcases h with ⟨-, -, rfl⟩ | ⟨-, updated, _, ⟨nowIso, _, ⟨rfl, rfl⟩, hwrite⟩, rfl, rfl⟩
        · exact .inl rfl
        · right
          rw [not_or, not_not, Option.isSome_iff_ne_none, not_not] at hcond
          have hid : card.id = candidate.id := Table.find?_key hfound
          have hfound' : w₁.store.cards.find? card.id = some card := by rwa [hid]
          obtain ⟨rfl, event, hbody, hrewritten, htags, hcardTags⟩ :=
            runs_writeWithEvent hwrite (.tick w₁) hfound' rfl
          obtain ⟨lane, hmem, hlane, hkey⟩ := hdone
          refine ⟨card, _, event, ⟨?_, hrewritten⟩⟩
          rw [List.map_singleton, hbody]
          exact .expired hfound' hcond.1 hmem (by rw [hlane, hcond.2]) hkey
            (.of_same htags hcardTags)

end expiring

section alerting

theorem readsOnly_alertRecipients (card : Card) (supervisors : List User) :
    (alertRecipients card supervisors).ReadsOnly := by
  unfold alertRecipients
  cases card.assigneeId with
  | none => exact (Program.readsOnly_pure _).bind fun _ => Program.readsOnly_pure _
  | some id => exact (Program.readsOnly_read _).bind fun _ => Program.readsOnly_pure _

theorem readsOnly_visibleRecipients (board : Board) (users : List User) :
    (visibleRecipients board users).ReadsOnly := by
  induction users with
  | nil => exact Program.readsOnly_pure _
  | cons user users ih =>
    exact (readsOnly_canAccessBoard _ _).bind fun _ => ih.bind fun _ => Program.readsOnly_pure _

/-- Claiming one card marks it and leaves every other card as it was. -/
theorem runs_claimAlert {board : Board} {supervisors : List User} {nowIso : Instant} {card : Card}
    {alert : Card × List User} (h : Runs (claimAlert board supervisors nowIso card) w alert w')
    (hfound : w.store.cards.find? card.id = some card) (hactive : card.archivedAt = none)
    (hwaiting : InWaitingLane w.store card) :
    Alerted w w' ∧ ∀ id, id ≠ card.id → w'.store.cards.find? id = w.store.cards.find? id := by
  simp only [claimAlert, runs_bind_iff, runs_pure_iff] at h
  obtain ⟨recipients, w₀, hrecipients, _, w₁, hupdate, visible, _, hvisible, -, rfl⟩ := h
  obtain rfl := hrecipients.of_readsOnly (readsOnly_alertRecipients _ _)
  obtain rfl := hvisible.of_readsOnly (readsOnly_visibleRecipients _ _)
  obtain ⟨haccepts, hs, hi, hd⟩ := runs_updateCard hupdate
  have hother : ∀ id, id ≠ card.id → w'.store.cards.find? id = w₀.store.cards.find? id := by
    intro id hne
    rw [hs]
    exact Table.find?_update_ne fun hk => hne hk.symm
  refine ⟨⟨fun id => ?_, fun name hname => ?_, hi, hd.ge⟩, hother⟩
  · by_cases hid : id = card.id
    · refine .inr ⟨card, nowIso, hid ▸ hfound, hactive, hwaiting, ?_⟩
      rw [hs, hid]
      change (w₀.store.cards.update _).find? _ = _
      rw [Table.find?_update haccepts, hfound]
      exact if_pos rfl
    · exact .inl (hother id hid)
  · rw [hs]
    cases name <;> first | rfl | exact absurd rfl hname

theorem runs_claimAlerts {board : Board} {supervisors : List User} {nowIso : Instant}
    {cards : List Card} {alerts : List (Card × List User)}
    (h : Runs (claimAlerts board supervisors nowIso cards) w alerts w')
    (hfound : ∀ c ∈ cards, w.store.cards.find? c.id = some c) (hids : (cards.map (·.id)).Nodup)
    (hactive : ∀ c ∈ cards, c.archivedAt = none)
    (hwaiting : ∀ c ∈ cards, InWaitingLane w.store c) : Alerted w w' := by
  induction cards generalizing w alerts with
  | nil =>
    obtain ⟨-, rfl⟩ := runs_pure_iff.mp h
    exact .refl _
  | cons card cards ih =>
    simp only [claimAlerts, runs_bind_iff, runs_pure_iff] at h
    obtain ⟨alert, w₁, hclaim, rest, _, hrest, -, rfl⟩ := h
    obtain ⟨hfirst, hother⟩ := runs_claimAlert hclaim (hfound card (by simp))
      (hactive card (by simp)) (hwaiting card (by simp))
    obtain ⟨hnotin, hids⟩ := List.nodup_cons.mp hids
    have hlanes : w₁.store.lanes = w.store.lanes := hfirst.frame .lanes (by decide)
    refine hfirst.trans (ih hrest (fun c hc => ?_) hids (fun c hc => hactive c (by simp [hc]))
      fun c hc => ?_)
    · have hne : c.id ≠ card.id := fun he => hnotin (List.mem_map.mpr ⟨c, hc, he⟩)
      rw [hother c.id hne]
      exact hfound c (by simp [hc])
    · unfold InWaitingLane
      rw [hlanes]
      exact hwaiting c (by simp [hc])

theorem runs_claimBoard {deps : CardServiceDeps} {nowIso : Instant} {board : Board}
    {alerts : List (Card × List User)} (h : Runs (claimBoard deps nowIso board) w alerts w') :
    Alerted w w' := by
  simp only [claimBoard, runs_bind_iff, runs_findByKey_iff] at h
  obtain ⟨_, w₀, ⟨rfl, rfl⟩, h⟩ := h
  cases hlane : LaneRepository.laneWithKey w₀.store board.id waitingKey with
  | none =>
    simp only [hlane, runs_pure_iff] at h
    rw [h.2]
    exact .refl _
  | some lane =>
    simp only [hlane, UserAccountRepository.list, runs_bind_iff, runs_query_iff, runs_read_iff,
      runs_ite_iff, runs_pure_iff] at h
    obtain ⟨rows, w₁, ⟨rfl, rfl⟩, h⟩ := h
    rcases h with ⟨-, -, rfl⟩ | ⟨-, policy, _, hpolicy, _, w₂, ⟨rfl, rfl⟩, hclaim⟩
    · exact .refl _
    · obtain rfl := runs_activePolicy hpolicy
      obtain ⟨hmem, -, hkey⟩ := laneWithKey_mem hlane
      refine runs_claimAlerts hclaim (fun c hc => ?_) ?_ (fun c hc => ?_) fun c hc => ?_
      · exact Table.find?_of_mem (mem_queried rfl (List.mem_filter.mp hc).1).1
      · exact (ids_nodup_queried _ _).sublist (List.filter_sublist.map _)
      · exact (mem_queried rfl (List.mem_filter.mp hc).1).2.1
      · exact ⟨lane, hmem, (mem_queried rfl (List.mem_filter.mp hc).1).2.2, hkey⟩

theorem runs_claimOverdueBody {deps : CardServiceDeps} {nowIso : Instant}
    {alerts : List (Card × List User)} (h : Runs (claimOverdueBody deps nowIso) w alerts w') :
    Alerted w w' := by
  simp only [claimOverdueBody, BoardRepository.list, runs_bind_iff, runs_read_iff] at h
  obtain ⟨_, w₀, ⟨rfl, rfl⟩, hfold⟩ := h
  refine Runs.foldM_induction (I := fun _ w₁ => Alerted w₀ w₁) ?_ (.refl w₀) hfold
  rintro acc board - w₁ acc' w₂ halerted hstep
  simp only [runs_bind_iff, runs_pure_iff] at hstep
  obtain ⟨alerts, _, hclaim, -, rfl⟩ := hstep
  exact halerted.trans (runs_claimBoard hclaim)

end alerting
end AiKanban.Effects
