import AiKanban.Invariants.CancelReopen
import AiKanban.Services.BoardPages

/-!
# When a card arrived in its lane

The times of arrival in the review lane and in `done` are read off the newest event of the types
that are supposed to lead there. A reopen that restores a cancelled card is not one of them.
-/
namespace AiKanban.Invariants

open Domain Db Relational Services Services.CardService Services.BoardQueryService Transactions
open Effects Application

/-- The types of the events that put a card into a lane. -/
def arrivalTypes : List CardEventType := [.created, .statusChanged, .cancelled, .reopened]

/-- The event puts its card into the lane. -/
def PutsInto (lane : Lane) : CardEventBody → Prop
  | .created snapshot => snapshot.card.laneId = lane.id
  | .statusChanged payload => payload.toLane = lane.key
  | .cancelled _ => lane.key = doneKey
  | .reopened toLane => toLane = lane.key
  | _ => False

/-- The last event of a log that put its card into a lane, which is the given one. -/
structure LastArrival (log : List CardEvent) (lane : Lane) (e : CardEvent) : Prop where
  puts : PutsInto lane e.body
  last : ∃ older newer, log = older ++ e :: newer ∧
    ∀ e' ∈ newer, e'.body.eventType ∉ arrivalTypes

/-- The types that lead to the review lane and to `done` by a move or a cancellation. -/
def Direct (key : LaneKey) (type : CardEventType) : Prop :=
  (key = reviewKey → type = .statusChanged) ∧
    (key = doneKey → type = .statusChanged ∨ type = .cancelled)

/-- The operation puts no card into the review lane or `done` but by a move or a cancellation. -/
def ArrivesDirectly (w : World Store Tick) : Operation → Prop
  | .card (.create deps _ _ _) =>
      ∀ lane ∈ entryLane w.store deps.boardId, lane.key ≠ reviewKey ∧ lane.key ≠ doneKey
  | .card (.reopen _ cardId _) =>
      ∀ card ∈ w.store.cards.find? cardId, ∀ lane ∈ reopenLane w.store card,
        lane.key ≠ reviewKey ∧ lane.key ≠ doneKey
  | _ => True

/-- The card is in a lane, and an event of a right type was the last one to put it there. -/
def Arrived (s : Store) (card : Card) : Prop :=
  ∃ lane, LaneOf s card lane ∧ ∃ e, LastArrival (eventsOf s card.id) lane e ∧
    Direct lane.key e.body.eventType

theorem direct_of_ne {key : LaneKey} {type : CardEventType} (hreview : key ≠ reviewKey)
    (hdone : key ≠ doneKey) : Direct key type :=
  ⟨fun h => absurd h hreview, fun h => absurd h hdone⟩

section cards

variable {s s' : Store} {card card' : Card} {events : List CardEvent}

/-- Events that put it nowhere leave a card where it had arrived. -/
theorem Arrived.stay (h : Arrived s card)
    (hlane : ∀ lane, LaneOf s card lane → ∃ lane', LaneOf s' card' lane' ∧ lane'.key = lane.key)
    (hlaneId : card'.laneId = card.laneId)
    (hlog : eventsOf s' card'.id = eventsOf s card.id ++ events)
    (hevents : ∀ e ∈ events, e.body.eventType ∉ arrivalTypes) : Arrived s' card' := by
  obtain ⟨lane, hof, e, ⟨hputs, older, newer, hsplit, hnewer⟩, hdirect⟩ := h
  obtain ⟨lane', hof', hkey⟩ := hlane lane hof
  have hid : lane'.id = lane.id := hof'.2.1.trans (hlaneId.trans hof.2.1.symm)
  refine ⟨lane', hof', e, ⟨?_, older, newer ++ events, ?_, ?_⟩, hkey ▸ hdirect⟩
  · unfold PutsInto at hputs ⊢
    rw [hid, hkey]
    exact hputs
  · rw [hlog, hsplit, List.append_assoc, List.cons_append]
  · intro e' he'
    rcases List.mem_append.mp he' with hold | hnew
    · exact hnewer e' hold
    · exact hevents e' hnew

/-- An event that puts a card into a lane is its last arrival. -/
theorem arrived_of_last {lane : Lane} {e : CardEvent} {older : List CardEvent}
    (hlane : LaneOf s' card' lane) (hlog : eventsOf s' card'.id = older ++ [e])
    (hputs : PutsInto lane e.body) (hdirect : Direct lane.key e.body.eventType) :
    Arrived s' card' :=
  ⟨lane, hlane, e, ⟨hputs, older, [], hlog, List.forall_mem_nil _⟩, hdirect⟩

/-- The newest event of some of the types is the last arrival, when it is of one of them. -/
theorem latest_of_lastArrival {lane : Lane} {e : CardEvent} {types : List CardEventType}
    {cardId : ℕ} (h : LastArrival (eventsOf s cardId) lane e)
    (hordered : AppendOrdered (eventsOf s cardId)) (htype : e.body.eventType ∈ types)
    (htypes : ∀ type ∈ types, type ∈ arrivalTypes) :
    (EventRepository.latest s cardId types).head? = some e := by
  obtain ⟨older, newer, hsplit, hnewer⟩ := h.last
  have hrows : (s.cardEvents.rows.filter fun e =>
      e.cardId == cardId && types.contains e.body.eventType) =
        (older.filter fun e => types.contains e.body.eventType) ++ [e] := by
    have hfilter : (s.cardEvents.rows.filter fun e =>
        e.cardId == cardId && types.contains e.body.eventType) =
          (eventsOf s cardId).filter fun e => types.contains e.body.eventType := by
      rw [eventsOf, List.filter_filter]
      exact List.filter_congr fun e _ => Bool.and_comm ..
    have hnone : (newer.filter fun e => types.contains e.body.eventType) = [] := by
      refine List.filter_eq_nil_iff.mpr fun e' he' hin => hnewer e' he' ?_
      exact htypes _ (by simpa using hin)
    rw [hfilter, hsplit, List.filter_append, List.filter_cons_of_pos (by simpa using htype), hnone]
  rw [EventRepository.latest, hrows]
  apply head?_newestFirst_append
  rw [hsplit] at hordered
  obtain ⟨holder, -, hacross⟩ := List.pairwise_append.mp hordered
  refine List.pairwise_append.mpr ⟨holder.filter _, List.pairwise_singleton _ _, ?_⟩
  intro a ha b hb
  obtain rfl := List.mem_singleton.mp hb
  exact hacross a (List.mem_filter.mp ha).1 b (List.mem_cons_self ..)

end cards

section runs

variable [Platform] {w w' : World Store Tick}

/-- A rewritten card has arrived where it was, or where an event of the rewrite puts it. -/
theorem arrived_of_change {op : CardOperation} {card next : Card} {events : List CardEvent}
    (h : Changed op w w' card next events) (hop : ArrivesDirectly w (.card op))
    (harrived : Arrived w.store card) : Arrived w'.store next := by
  have hr := h.rewritten
  have hlog : eventsOf w'.store next.id = eventsOf w.store card.id ++ events := by
    rw [show next.id = card.id from hr.key, eventsOf_append hr.log hr.about, if_pos rfl]
  have hin : ∀ {lane : Lane}, lane ∈ w.store.lanes.rows → lane ∈ w'.store.lanes.rows := by
    rw [hr.lanes]
    exact id
  have hkept : next.laneId = card.laneId → next.boardId = card.boardId →
      (∀ e ∈ events, e.body.eventType ∉ arrivalTypes) → Arrived w'.store next := by
    intro hlaneId hboard hevents
    refine harrived.stay (fun lane hof => ⟨lane, ?_, rfl⟩) hlaneId hlog hevents
    exact ⟨hin hof.1, hof.2.1.trans hlaneId.symm, hof.2.2.trans hboard.symm⟩
  have hchange := h.change
  generalize hbodies : events.map (·.body) = bodies at hchange
  have htypes : ∀ e ∈ events, e.body ∈ bodies := by
    intro e he
    rw [← hbodies]
    exact List.mem_map_of_mem he
  have hsingle : ∀ {body : CardEventBody}, bodies = [body] → ∃ e, events = [e] ∧ e.body = body := by
    intro body hbody
    rw [hbody] at hbodies
    obtain ⟨e, rfl, he⟩ := List.map_eq_singleton_iff.mp hbodies
    exact ⟨e, rfl, he⟩
  cases hchange with
  | edited _ _ _ _ _ _ _ =>
    refine hkept rfl rfl fun e he => ?_
    obtain ⟨change, -, hbody⟩ := List.mem_map.mp (htypes e he)
    rw [← hbody]
    simp [CardEventBody.eventType, arrivalTypes]
  | reordered _ _ _ _ hof _ =>
    refine hkept hof.2.1 rfl fun e he => ?_
    rw [List.mem_singleton.mp (htypes e he)]
    simp [CardEventBody.eventType, arrivalTypes]
  | @moved _ _ _ _ _ fromLane toLane fields position updatedAt startedAt _ _ _ _ _ _ hto _ _ _ =>
    obtain ⟨e, rfl, hbody⟩ := hsingle rfl
    obtain ⟨hmem, hboard, -⟩ := laneWithKey_mem hto
    obtain ⟨_, _, _, _, _, hcross⟩ := crossLane_frame card
      (placedCard card toLane position updatedAt) fromLane toLane fields startedAt
    rw [hcross] at hlog ⊢
    refine arrived_of_last ⟨hin hmem, rfl, hboard⟩ hlog ?_ ?_
    · rw [hbody]
      exact rfl
    · rw [hbody]
      exact ⟨fun _ => rfl, fun _ => .inl rfl⟩
  | cancelled _ _ _ _ _ _ hto _ =>
    obtain ⟨e, rfl, hbody⟩ := hsingle rfl
    obtain ⟨hmem, hboard, hkey⟩ := laneWithKey_mem hto
    refine arrived_of_last ⟨hin hmem, rfl, hboard⟩ hlog ?_ ?_
    · rw [hbody]
      exact hkey
    · rw [hbody, hkey]
      exact ⟨fun h => absurd h (by decide), fun _ => .inr rfl⟩
  | reopened _ hfound _ _ _ hto _ =>
    obtain ⟨e, rfl, hbody⟩ := hsingle rfl
    obtain ⟨hmem, hboard⟩ := reopenLane_mem hto
    obtain ⟨hreview, hdone⟩ := hop card hfound _ hto
    refine arrived_of_last ⟨hin hmem, rfl, hboard⟩ hlog ?_ (direct_of_ne hreview hdone)
    rw [hbody]
    exact rfl
  | archived _ _ _ _ _ _ _ | expired _ _ _ _ _ _ | blocked _ _ _ _ _ _ | unblocked _ _ _ _ _ _ =>
    refine hkept rfl rfl fun e he => ?_
    rw [List.mem_singleton.mp (htypes e he)]
    simp [CardEventBody.eventType, arrivalTypes]

/-- A unit of work leaves every card where it has arrived. -/
theorem arrived_effect {op : Operation} (h : ∀ card ∈ w.store.cards.rows, Arrived w.store card)
    (hop : ArrivesDirectly w op) (heffect : Effect w w' op) :
    ∀ card ∈ w'.store.cards.rows, Arrived w'.store card := by
  have hsame : w'.store.cards = w.store.cards → w'.store.cardEvents = w.store.cardEvents →
      LanesKept w.store w'.store → ∀ card ∈ w'.store.cards.rows, Arrived w'.store card := by
    intro hcards hevents hlanes card hcard
    rw [hcards] at hcard
    refine (h card hcard).stay (hlanes card hcard) rfl ?_ (List.forall_mem_nil _)
    rw [eventsOf, hevents, List.append_nil, eventsOf]
  cases heffect with
  | untouched huntouched =>
    exact hsame (huntouched.frame .cards (by decide)) (huntouched.frame .cardEvents (by decide))
      huntouched.lanes
  | @created _ _ _ _ made _ event hcreated =>
    intro card hcard
    have hlanes : w'.store.lanes = w.store.lanes := hcreated.frame .lanes (by decide)
    have habout : ∀ e ∈ [event], e.cardId = made.id := by simp [hcreated.about]
    rw [hcreated.cards] at hcard
    rcases Table.mem_insert.mp hcard with hold | ⟨-, rfl⟩
    · have hne : card.id ≠ made.id := by
        intro hid
        have hnone : w.store.cards.find? made.id = none := Table.find?_of_accepts hcreated.accepted
        exact Table.find?_eq_none_iff.mp hnone card hold hid
      refine (h card hold).stay (LanesKept.of_lanes hlanes card hold) rfl ?_ (List.forall_mem_nil _)
      rw [eventsOf_append hcreated.log habout, if_neg hne]
    · obtain ⟨input, options, origin, reporterId, lane, position, nowIso, hentry, hrow⟩ :=
        hcreated.row
      obtain ⟨hmem, hboard⟩ := entryLane_mem hentry
      have hlaneId : card.laneId = lane.id := by rw [hrow]; rfl
      have hboardId : card.boardId = lane.boardId := by rw [hrow]; exact hboard.symm
      obtain ⟨hreview, hdone⟩ := hop lane hentry
      have hof : LaneOf w'.store card lane := ⟨hlanes ▸ hmem, hlaneId.symm, hboardId.symm⟩
      refine arrived_of_last hof (by rw [eventsOf_append hcreated.log habout, if_pos rfl]) ?_
        (direct_of_ne hreview hdone)
      rw [hcreated.body]
      exact hlaneId
  | @changed _ card next _ hchanged =>
    intro c hc
    have hr := hchanged.rewritten
    rcases hr.mem_cards hc with rfl | ⟨hold, hne⟩
    · exact arrived_of_change hchanged hop (h card (Table.mem_of_find? hr.found))
    · refine (h c hold).stay (LanesKept.of_lanes hr.lanes c hold) rfl ?_ (List.forall_mem_nil _)
      rw [eventsOf_append hr.log hr.about, if_neg hne]
  | @discarded _ deletedId _ _ _ hdiscarded =>
    intro card hcard
    rw [hdiscarded.cards] at hcard
    obtain ⟨hold, hne⟩ := Table.mem_remove.mp hcard
    refine (h card hold).stay (LanesKept.of_lanes hdiscarded.lanes card hold) rfl ?_
      (List.forall_mem_nil _)
    rw [List.append_nil]
    exact eventsOf_discarded hdiscarded (by simpa using hne)
  | alerted halerted =>
    intro c hc
    have hlanes : w'.store.lanes = w.store.lanes := halerted.frame .lanes (by decide)
    have hevents : w'.store.cardEvents = w.store.cardEvents :=
      halerted.frame .cardEvents (by decide)
    have hfound : w'.store.cards.find? c.id = some c := Table.find?_of_mem hc
    have hlog : eventsOf w'.store c.id = eventsOf w.store c.id ++ [] := by
      rw [eventsOf, hevents, List.append_nil, eventsOf]
    rcases halerted.cards c.id with hsame' | ⟨card, nowIso, hcard, -, -, hmarked⟩
    · rw [hsame'] at hfound
      have hold := Table.mem_of_find? hfound
      exact (h c hold).stay (LanesKept.of_lanes hlanes c hold) rfl hlog (List.forall_mem_nil _)
    · rw [hmarked] at hfound
      obtain rfl := Option.some.inj hfound
      have hold := Table.mem_of_find? hcard
      exact (h card hold).stay (LanesKept.of_lanes hlanes card hold) rfl hlog (List.forall_mem_nil _)
  | @noted _ notedId event hnoted =>
    intro card hcard
    have hcards : w'.store.cards = w.store.cards := hnoted.frame .cards (by decide)
    have hlanes : w'.store.lanes = w.store.lanes := hnoted.frame .lanes (by decide)
    have habout : ∀ e ∈ [event], e.cardId = notedId := by simp [hnoted.about]
    have hthread : event.body.eventType ∉ arrivalTypes := by
      have hthread := hnoted.thread
      cases hbody : event.body <;>
        simp [hbody, onThread, CardEventBody.eventType, arrivalTypes] at hthread ⊢
    rw [hcards] at hcard
    refine (h card hcard).stay (LanesKept.of_lanes hlanes card hcard) rfl
      (eventsOf_append hnoted.log habout) ?_
    intro e he
    split_ifs at he
    · rwa [List.mem_singleton.mp he]
    · cases he
  | related _ _ hlinked | unrelated _ hlinked =>
    refine hsame ?_ ?_ (LanesKept.of_lanes ?_) <;> rw [hlinked.store]
  | unlocated _ _ hunlocated =>
    intro c hc
    have hlanes : w'.store.lanes = w.store.lanes :=
      hunlocated.frame .lanes (by decide) (by decide)
    have hevents : w'.store.cardEvents = w.store.cardEvents :=
      hunlocated.frame .cardEvents (by decide) (by decide)
    rw [hunlocated.cards] at hc
    obtain ⟨card, hcard, rfl⟩ := List.mem_map.mp hc
    have hlog : eventsOf w'.store card.id = eventsOf w.store card.id ++ [] := by
      rw [eventsOf, hevents, List.append_nil, eventsOf]
    split_ifs
    · exact (h card hcard).stay (LanesKept.of_lanes hlanes card hcard) rfl hlog (List.forall_mem_nil _)
    · exact (h card hcard).stay (LanesKept.of_lanes hlanes card hcard) rfl hlog (List.forall_mem_nil _)

theorem arrived_run (inputs : ℕ → Tick) (ops : List Operation)
    (hops : RunsUnder ArrivesDirectly (freshlySeeded inputs) ops) :
    ∀ card ∈ (run (freshlySeeded inputs) ops).store.cards.rows,
      Arrived (run (freshlySeeded inputs) ops).store card := by
  refine run_invariant (I := fun w => ∀ card ∈ w.store.cards.rows, Arrived w.store card)
    (P := ArrivesDirectly) ?_ (fun _ _ _ _ => trivial)
    (fun _ _ _ hw hop heffect => arrived_effect hw hop heffect) ops ?_ hops
  · intro w w₁ op hstore hop
    unfold ArrivesDirectly at hop ⊢
    rwa [hstore]
  · intro card hcard
    simp at hcard

end runs

section times

variable {w : World Store Tick} {card : Card} {lane : Lane} {e : CardEvent}

theorem runs_reviewEnteredAt_of_latest {payload : StatusChange}
    (hlatest : (EventRepository.latest w.store card.id [.statusChanged]).head? = some e)
    (hbody : e.body = .statusChanged payload) (hto : payload.toLane = reviewKey) :
    Runs (reviewEnteredAt card) w e.createdAt w := by
  refine runs_bind_iff.mpr ⟨some e, w, runs_read_iff.mpr ⟨hlatest.symm, rfl⟩, ?_⟩
  simp only [hbody, if_pos hto]
  exact runs_pure_iff.mpr ⟨rfl, rfl⟩

theorem runs_reviewEnteredAt (h : LastArrival (eventsOf w.store card.id) lane e)
    (hordered : AppendOrdered (eventsOf w.store card.id)) (hkey : lane.key = reviewKey)
    (hdirect : Direct lane.key e.body.eventType) : Runs (reviewEnteredAt card) w e.createdAt w := by
  have htype := hdirect.1 hkey
  have hlatest : (EventRepository.latest w.store card.id [.statusChanged]).head? = some e :=
    latest_of_lastArrival h hordered (by simp [htype]) (by decide)
  have hputs := h.puts
  cases hbody : e.body with
  | statusChanged payload =>
    rw [hbody] at hputs
    exact runs_reviewEnteredAt_of_latest hlatest hbody (hputs.trans hkey)
  | _ =>
    rw [hbody] at htype
    cases htype

theorem runs_enteredDoneAt (h : LastArrival (eventsOf w.store card.id) lane e)
    (hordered : AppendOrdered (eventsOf w.store card.id)) (hkey : lane.key = doneKey)
    (hdirect : Direct lane.key e.body.eventType) : Runs (enteredDoneAt card) w e.createdAt w := by
  have htype := hdirect.2 hkey
  have hlatest :
      (EventRepository.latest w.store card.id [.statusChanged, .cancelled]).head? = some e :=
    latest_of_lastArrival h hordered (by simpa using htype) (by decide)
  refine runs_bind_iff.mpr ⟨some e, w, runs_read_iff.mpr ⟨hlatest.symm, rfl⟩, ?_⟩
  have hputs := h.puts
  cases hbody : e.body with
  | statusChanged payload =>
    rw [hbody] at hputs
    simp only [hbody, if_pos (hputs.trans hkey)]
    exact runs_pure_iff.mpr ⟨rfl, rfl⟩
  | cancelled payload =>
    simp only [hbody]
    exact runs_pure_iff.mpr ⟨rfl, rfl⟩
  | _ =>
    rw [hbody] at htype
    simp [CardEventBody.eventType] at htype

end times

/-- In a run that puts no card into the review lane or `done` but by a move or a cancellation, the
time of arrival of a card there is that of the last event that put it into its lane. -/
theorem arrival_times [Platform] (inputs : ℕ → Tick) (ops : List Operation)
    (hops : RunsUnder ArrivesDirectly (freshlySeeded inputs) ops) (w : World Store Tick) (card : Card)
    (lane : Lane) (hw : w = run (freshlySeeded inputs) ops) (hcard : card ∈ w.store.cards.rows)
    (hlane : LaneOf w.store card lane) (hordered : AppendOrdered (eventsOf w.store card.id)) :
    ∃ e, LastArrival (eventsOf w.store card.id) lane e ∧
      (lane.key = reviewKey → Runs (reviewEnteredAt card) w e.createdAt w) ∧
      (lane.key = doneKey → Runs (enteredDoneAt card) w e.createdAt w) := by
  have harrived : Arrived w.store card := by
    subst hw
    exact arrived_run inputs ops hops card hcard
  obtain ⟨lane', hlane', e, hlast, hdirect⟩ := harrived
  obtain rfl := LaneOf.unique hlane hlane'
  exact ⟨e, hlast, fun hkey => runs_reviewEnteredAt hlast hordered hkey hdirect,
    fun hkey => runs_enteredDoneAt hlast hordered hkey hdirect⟩

/-- A card is created and moved to the review lane. -/
def toReview : List Operation :=
  [.card (.create ⟨101, 102, .sqlite⟩ sampleActor { title := "Pump" } {}),
    .card (.move sampleActor 1 ⟨"review", none, none, none, none, 1⟩)]

def reviewedWorld : World Store Tick := @run samplePlatform (freshlySeeded sampleTicks) toReview

/-- There it is cancelled and reopened. -/
def reopenedInReview : World Store Tick :=
  @run samplePlatform reviewedWorld
    [.card (.cancel sampleActor 1 ⟨.declined, 2⟩), .card (.reopen sampleActor 1 ⟨3⟩)]

theorem arrival_times_reviewed : ∃ card ∈ reviewedWorld.store.cards.rows, ∃ lane e,
    lane.key = reviewKey ∧ LastArrival (eventsOf reviewedWorld.store card.id) lane e ∧
      Runs (reviewEnteredAt card) reviewedWorld e.createdAt reviewedWorld := by
  have hops : @RunsUnder samplePlatform (@ArrivesDirectly) (freshlySeeded sampleTicks) toReview := by
    refine ⟨?_, trivial, trivial⟩
    change ∀ lane ∈ entryLane (freshlySeeded sampleTicks).store 101,
      lane.key ≠ reviewKey ∧ lane.key ≠ doneKey
    decide +kernel
  obtain ⟨card, hcard, lane, hmem, hlaneId, hboard, hkey, hordered⟩ :
      ∃ card ∈ reviewedWorld.store.cards.rows, ∃ lane ∈ reviewedWorld.store.lanes.rows,
        lane.id = card.laneId ∧ lane.boardId = card.boardId ∧ lane.key = reviewKey ∧
          AppendOrdered (eventsOf reviewedWorld.store card.id) := by
    decide +kernel
  obtain ⟨e, hlast, hreview, -⟩ := @arrival_times samplePlatform sampleTicks toReview hops
    reviewedWorld card lane rfl hcard ⟨hmem, hlaneId, hboard⟩ hordered
  exact ⟨card, hcard, lane, e, hkey, hlast, hreview hkey⟩

/-- Its arrival there is the reopening, and its first arrival is what is reported. -/
theorem arrival_times_fail : ∃ card ∈ reopenedInReview.store.cards.rows, ∃ lane e t,
    LaneOf reopenedInReview.store card lane ∧ lane.key = reviewKey ∧
      AppendOrdered (eventsOf reopenedInReview.store card.id) ∧
      LastArrival (eventsOf reopenedInReview.store card.id) lane e ∧
      Runs (reviewEnteredAt card) reopenedInReview t reopenedInReview ∧ t < e.createdAt := by
  obtain ⟨card, hcard, lane, hmem, hlaneId, hboard, hkey, hordered, e, he, hbody, s, hs, hbody',
      hlt⟩ :
      ∃ card ∈ reopenedInReview.store.cards.rows, ∃ lane ∈ reopenedInReview.store.lanes.rows,
        lane.id = card.laneId ∧ lane.boardId = card.boardId ∧ lane.key = reviewKey ∧
          AppendOrdered (eventsOf reopenedInReview.store card.id) ∧
          ∃ e ∈ (eventsOf reopenedInReview.store card.id).getLast?, e.body = .reopened reviewKey ∧
            ∃ s ∈ (EventRepository.latest reopenedInReview.store card.id [.statusChanged]).head?,
              s.body = .statusChanged ⟨"intake", "review", false, false⟩ ∧
                s.createdAt < e.createdAt := by
    decide +kernel
  obtain ⟨older, hsplit⟩ := List.getLast?_eq_some_iff.mp he
  refine ⟨card, hcard, lane, e, s.createdAt, ⟨hmem, hlaneId, hboard⟩, hkey, hordered,
    ⟨?_, older, [], hsplit, List.forall_mem_nil _⟩,
    runs_reviewEnteredAt_of_latest hs hbody' rfl, hlt⟩
  rw [hbody]
  exact hkey.symm

end AiKanban.Invariants
