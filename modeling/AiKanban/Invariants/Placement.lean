import AiKanban.Effects.Steps

/-!
# What the lane of a card says about its row

A rule relates the key of a card's lane to its row, another one restricts the
cancellations of the log. A pair of rules that every rewrite of a card keeps is
kept by every unit of work.
-/
namespace AiKanban.Invariants

open Domain Db Relational Services Services.CardService Transactions Effects
open Application

/-- Every card is in a lane and obeys the rule of its key, every cancellation its own rule. -/
structure Placed (rule : LaneKey → Card → Prop) (logged : Cancellation → Prop) (s : Store) :
    Prop where
  cards : ∀ card ∈ s.cards.rows, ∃ lane, LaneOf s card lane ∧ rule lane.key card
  log : ∀ e ∈ s.cardEvents.rows, ∀ p, e.body.cancellation? = some p → logged p

variable {rule : LaneKey → Card → Prop} {logged : Cancellation → Prop}

theorem LaneOf.of_lanes {s s' : Store} {card : Card} {lane : Lane} (h : LaneOf s card lane)
    (hlanes : s'.lanes = s.lanes) : LaneOf s' card lane := by
  unfold LaneOf at h ⊢
  rwa [hlanes]

theorem LaneOf.unique {s : Store} {card : Card} {a b : Lane} (ha : LaneOf s card a)
    (hb : LaneOf s card b) : a = b :=
  lane_eq_of_id ha.1 hb.1 (ha.2.1.trans hb.2.1.symm)

/-- The rule of a card's lane, whichever row of the lane table it is read from. -/
theorem Placed.rule_of {s : Store} (h : Placed rule logged s) {card : Card}
    (hcard : card ∈ s.cards.rows) {lane : Lane} (hlane : LaneOf s card lane) :
    rule lane.key card := by
  obtain ⟨lane', hlane', hrule⟩ := h.cards card hcard
  rwa [LaneOf.unique hlane hlane']

/-- An operation that takes the entry lane does not find the given key there. -/
def EntryAvoids (key : LaneKey) (w : World Store Tick) : Operation → Prop
  | .card (.create deps _ _ _) =>
      ∀ lane ∈ entryLane w.store deps.boardId, lane.key ≠ key
  | .card (.reopen _ cardId _) =>
      ∀ card ∈ w.store.cards.find? cardId, FallsBackToEntry w.store card →
        ∀ lane ∈ entryLane w.store card.boardId, lane.key ≠ key
  | _ => True

instance (s : Store) (card : Card) : Decidable (FallsBackToEntry s card) :=
  inferInstanceAs (Decidable (_ ∧ _))

instance (key : LaneKey) (w : World Store Tick) : ∀ op, Decidable (EntryAvoids key w op)
  | .card (.create deps _ _ _) =>
      inferInstanceAs (Decidable (∀ lane ∈ entryLane w.store deps.boardId, lane.key ≠ key))
  | .card (.reopen _ cardId _) =>
      inferInstanceAs (Decidable (∀ card ∈ w.store.cards.find? cardId, FallsBackToEntry w.store card →
        ∀ lane ∈ entryLane w.store card.boardId, lane.key ≠ key))
  | .card (.update ..) | .card (.move ..) | .card (.cancel ..) | .card (.archive ..)
  | .card (.block ..) | .card (.unblock ..) | .card (.delete ..) | .card (.archiveExpired _)
  | .card (.claimOverdueWaitingAlerts _) | .collaboration _ | .administration _ =>
      inferInstanceAs (Decidable True)

theorem EntryAvoids.of_store {key : LaneKey} {w w₁ : World Store Tick} {op : Operation}
    (hstore : w₁.store = w.store) (h : EntryAvoids key w op) : EntryAvoids key w₁ op := by
  unfold EntryAvoids at h ⊢
  rwa [hstore]

/-- A cancellation that a reopen reads is in the log. -/
theorem storedCancellation_mem {s : Store} {card : Card} {payload : Cancellation}
    (h : storedCancellation s card = some payload) :
    ∃ e ∈ s.cardEvents.rows, e.body.cancellation? = some payload := by
  unfold storedCancellation at h
  split_ifs at h
  obtain ⟨e, hhead, hpayload⟩ := Option.bind_eq_some_iff.mp h
  have hmem := List.mem_of_head? hhead
  rw [EventRepository.latest, mem_newestFirst, List.mem_filter] at hmem
  exact ⟨e, hmem.1, hpayload⟩

/-- The rules survive every way a row is made or rewritten. -/
structure Lawful [Platform] (rule : LaneKey → Card → Prop) (logged : Cancellation → Prop)
    (P : World Store Tick → Operation → Prop) : Prop where
  created : ∀ {w : World Store Tick} {deps : CardServiceDeps} {actor : Actor}
    {raw input : CreateCardInput} {options options' : CreateCardOptions} {origin : CardOrigin}
    {reporterId : Uuid} {lane : Lane} {id : ℕ} {position : String} {nowIso : Instant},
    P w (.card (.create deps actor raw options)) → entryLane w.store deps.boardId = some lane →
      rule lane.key
        (newCard deps input options' origin reporterId lane.id id position nowIso)
  changed : ∀ {w : World Store Tick} {s' : Store} {op : CardOperation} {card next : Card}
    {bodies : List CardEventBody} {lane : Lane},
    P w (.card op) → Placed rule logged w.store → card ∈ w.store.cards.rows →
      Change w.store s' op card next bodies → LaneOf w.store card lane → rule lane.key card →
        (∃ lane', LaneOf w.store next lane' ∧ rule lane'.key next) ∧
          ∀ body ∈ bodies, ∀ p, body.cancellation? = some p → logged p
  alerted : ∀ {card : Card} {nowIso : Instant}, rule waitingKey card →
    rule waitingKey { card with resumeAlertedAt := some nowIso }
  unlocated : ∀ {key : LaneKey} {card : Card}, rule key card →
    rule key { card with locationId := none }

section effects

variable {w w' : World Store Tick}

/-- Units of work that write neither cards, lanes nor the log. -/
theorem Placed.of_frame (h : Placed rule logged w.store)
    (hcards : w'.store.cards = w.store.cards) (hlanes : w'.store.lanes = w.store.lanes)
    (hlog : ∀ e ∈ w'.store.cardEvents.rows, ∀ p, e.body.cancellation? = some p →
      e ∈ w.store.cardEvents.rows) : Placed rule logged w'.store where
  cards := by
    intro card hcard
    rw [hcards] at hcard
    obtain ⟨lane, hlane, hrule⟩ := h.cards card hcard
    exact ⟨lane, LaneOf.of_lanes hlane hlanes, hrule⟩
  log := fun e he p hp => h.log e (hlog e he p hp) p hp

theorem cancellation?_of_onThread {body : CardEventBody} (h : onThread body = true) :
    body.cancellation? = none := by
  cases body <;> first | rfl | cases h

theorem placed_noted {cardId : ℕ} {event : CardEvent} (hnoted : Noted w w' cardId event)
    (h : Placed rule logged w.store) : Placed rule logged w'.store := by
  refine h.of_frame (hnoted.frame .cards (by decide)) (hnoted.frame .lanes (by decide)) ?_
  intro e he p hp
  rw [hnoted.log] at he
  rcases List.mem_append.mp he with he | he
  · exact he
  · rw [List.mem_singleton.mp he, cancellation?_of_onThread hnoted.thread] at hp
    cases hp

theorem placed_linked {relations : Table CardRelation} (hlinked : Linked w w' relations)
    (h : Placed rule logged w.store) : Placed rule logged w'.store := by
  refine h.of_frame ?_ ?_ fun e he _ _ => ?_
  · rw [hlinked.store]
  · rw [hlinked.store]
  · rwa [hlinked.store] at he

theorem placed_untouched (huntouched : Untouched w w') (h : Placed rule logged w.store) :
    Placed rule logged w'.store := by
  have hcards : w'.store.cards = w.store.cards := huntouched.frame .cards (by decide)
  have hlog : w'.store.cardEvents = w.store.cardEvents := huntouched.frame .cardEvents (by decide)
  refine ⟨fun card hcard => ?_, fun e he => h.log e (hlog ▸ he)⟩
  rw [hcards] at hcard
  obtain ⟨lane, hlane, hrule⟩ := h.cards card hcard
  obtain ⟨lane', hlane', hkey⟩ := huntouched.lanes card hcard lane hlane
  exact ⟨lane', hlane', hkey ▸ hrule⟩

theorem placed_discarded {cardId : ℕ} (hdiscarded : Discarded w w' cardId)
    (h : Placed rule logged w.store) : Placed rule logged w'.store := by
  refine ⟨fun card hcard => ?_, fun e he => h.log e ?_⟩
  · rw [hdiscarded.cards] at hcard
    obtain ⟨lane, hlane, hrule⟩ := h.cards card (Table.mem_remove.mp hcard).1
    exact ⟨lane, LaneOf.of_lanes hlane hdiscarded.lanes, hrule⟩
  · rw [hdiscarded.cardEvents] at he
    exact (Table.mem_remove.mp he).1

theorem placed_alerted (halerted : Alerted w w')
    (hrule : ∀ {card : Card} {nowIso : Instant}, rule waitingKey card →
      rule waitingKey { card with resumeAlertedAt := some nowIso })
    (h : Placed rule logged w.store) : Placed rule logged w'.store := by
  have hlanes : w'.store.lanes = w.store.lanes := halerted.frame .lanes (by decide)
  have hlog : w'.store.cardEvents = w.store.cardEvents := halerted.frame .cardEvents (by decide)
  refine ⟨fun c hc => ?_, fun e he => h.log e (hlog ▸ he)⟩
  have hfind : w'.store.cards.find? c.id = some c := Table.find?_of_mem hc
  rcases halerted.cards c.id with hsame | ⟨card, nowIso, hfound, -, hwaiting, hmarked⟩
  · rw [hsame] at hfind
    obtain ⟨lane, hlane, hlaneRule⟩ := h.cards c (Table.mem_of_find? hfind)
    exact ⟨lane, LaneOf.of_lanes hlane hlanes, hlaneRule⟩
  · rw [hmarked] at hfind
    obtain rfl := Option.some.inj hfind
    obtain ⟨lane, hlane, hlaneRule⟩ := h.cards card (Table.mem_of_find? hfound)
    obtain ⟨waiting, hmem, hid, hkey⟩ := hwaiting
    have heq : lane = waiting := lane_eq_of_id hlane.1 hmem (hlane.2.1.trans hid.symm)
    have hlaneKey : lane.key = waitingKey := heq ▸ hkey
    rw [hlaneKey] at hlaneRule
    exact ⟨lane, LaneOf.of_lanes hlane hlanes, hlaneKey ▸ hrule hlaneRule⟩

theorem placed_unlocated {subtree : List Uuid} (hunlocated : Unlocated w w' subtree)
    (hrule : ∀ {key : LaneKey} {card : Card}, rule key card →
      rule key { card with locationId := none })
    (h : Placed rule logged w.store) : Placed rule logged w'.store := by
  have hlanes : w'.store.lanes = w.store.lanes := hunlocated.frame .lanes (by decide) (by decide)
  have hlog : w'.store.cardEvents = w.store.cardEvents :=
    hunlocated.frame .cardEvents (by decide) (by decide)
  refine ⟨fun c hc => ?_, fun e he => h.log e (hlog ▸ he)⟩
  rw [hunlocated.cards] at hc
  obtain ⟨card, hcard, rfl⟩ := List.mem_map.mp hc
  obtain ⟨lane, hlane, hlaneRule⟩ := h.cards card hcard
  split_ifs
  · exact ⟨lane, LaneOf.of_lanes hlane hlanes, hrule hlaneRule⟩
  · exact ⟨lane, LaneOf.of_lanes hlane hlanes, hlaneRule⟩

variable [Platform] {P : World Store Tick → Operation → Prop}

theorem placed_created {deps : CardServiceDeps} {actor : Actor} {raw : CreateCardInput}
    {options : CreateCardOptions} {card : Card} {resolved : List Tag} {event : CardEvent}
    (hlaw : Lawful rule logged P) (hop : P w (.card (.create deps actor raw options)))
    (hcreated : Created deps w w' card resolved event) (h : Placed rule logged w.store) :
    Placed rule logged w'.store := by
  have hlanes : w'.store.lanes = w.store.lanes := hcreated.frame .lanes (by decide)
  refine ⟨fun c hc => ?_, fun e he p hp => ?_⟩
  · rw [hcreated.cards] at hc
    rcases Table.mem_insert.mp hc with hc | ⟨-, rfl⟩
    · obtain ⟨lane, hlane, hrule⟩ := h.cards c hc
      exact ⟨lane, LaneOf.of_lanes hlane hlanes, hrule⟩
    · obtain ⟨input, options', origin, reporterId, lane, position, nowIso, hentry, hrow⟩ :=
        hcreated.row
      obtain ⟨hmem, hboard⟩ := entryLane_mem hentry
      have hrule : rule lane.key
          (newCard deps input options' origin reporterId lane.id c.id position nowIso) :=
        hlaw.created hop hentry
      rw [← hrow] at hrule
      refine ⟨lane, LaneOf.of_lanes ⟨hmem, ?_, ?_⟩ hlanes, hrule⟩
      · rw [hrow]
        rfl
      · rw [hrow]
        exact hboard
  · rw [hcreated.log] at he
    rcases List.mem_append.mp he with he | he
    · exact h.log e he p hp
    · rw [List.mem_singleton.mp he, hcreated.body] at hp
      cases hp

theorem placed_changed {op : CardOperation} {card next : Card} {events : List CardEvent}
    (hlaw : Lawful rule logged P) (hop : P w (.card op)) (hchanged : Changed op w w' card next events)
    (h : Placed rule logged w.store) : Placed rule logged w'.store := by
  have hlanes := hchanged.rewritten.lanes
  have hcard : card ∈ w.store.cards.rows := Table.mem_of_find? hchanged.rewritten.found
  obtain ⟨lane, hlane, hrule⟩ := h.cards card hcard
  obtain ⟨⟨lane', hlane', hrule'⟩, hlogged⟩ :=
    hlaw.changed hop h hcard hchanged.change hlane hrule
  refine ⟨fun c hc => ?_, fun e he p hp => ?_⟩
  · rcases hchanged.rewritten.mem_cards hc with rfl | ⟨hc, -⟩
    · exact ⟨lane', LaneOf.of_lanes hlane' hlanes, hrule'⟩
    · obtain ⟨lane, hlane, hrule⟩ := h.cards c hc
      exact ⟨lane, LaneOf.of_lanes hlane hlanes, hrule⟩
  · rcases hchanged.rewritten.mem_log.mp he with he | he
    · exact h.log e he p hp
    · exact hlogged e.body (List.mem_map.mpr ⟨e, he, rfl⟩) p hp

/-- One unit of work keeps lawful rules. -/
theorem placed_effect {op : Operation} (hlaw : Lawful rule logged P)
    (h : Placed rule logged w.store) (hop : P w op) (heffect : Effect w w' op) :
    Placed rule logged w'.store := by
  cases heffect with
  | untouched huntouched => exact placed_untouched huntouched h
  | created hcreated => exact placed_created hlaw hop hcreated h
  | changed hchanged => exact placed_changed hlaw hop hchanged h
  | discarded _ hdiscarded => exact placed_discarded hdiscarded h
  | alerted halerted => exact placed_alerted halerted hlaw.alerted h
  | noted hnoted => exact placed_noted hnoted h
  | related _ _ hlinked => exact placed_linked hlinked h
  | unrelated _ hlinked => exact placed_linked hlinked h
  | unlocated _ _ hunlocated => exact placed_unlocated hunlocated hlaw.unlocated h

end effects
end AiKanban.Invariants
