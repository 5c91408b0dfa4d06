import AiKanban.Effects.Guards

/-!
# Rewriting one card

A mutation that changes a card rewrites its row and appends its events in one unit
of work. Events carry the stamps drawn for them, so a later event has later stamps.
-/
namespace AiKanban.Effects

open Domain Db Policy Relational Services Transactions Program

section tables

@[simp] theorem table_users (s : Store) : (HasTable.table s : Table UserCredentials) = s.users := rfl
@[simp] theorem table_boards (s : Store) : (HasTable.table s : Table Board) = s.boards := rfl
@[simp] theorem table_lanes (s : Store) : (HasTable.table s : Table Lane) = s.lanes := rfl
@[simp] theorem table_locations (s : Store) :
    (HasTable.table s : Table Location) = s.locations := rfl
@[simp] theorem table_cards (s : Store) : (HasTable.table s : Table Card) = s.cards := rfl
@[simp] theorem table_tags (s : Store) : (HasTable.table s : Table Tag) = s.tags := rfl
@[simp] theorem table_cardTags (s : Store) : (HasTable.table s : Table CardTag) = s.cardTags := rfl
@[simp] theorem table_comments (s : Store) : (HasTable.table s : Table Comment) = s.comments := rfl
@[simp] theorem table_attachments (s : Store) :
    (HasTable.table s : Table Attachment) = s.attachments := rfl
@[simp] theorem table_cardEvents (s : Store) :
    (HasTable.table s : Table CardEvent) = s.cardEvents := rfl
@[simp] theorem table_cardRelations (s : Store) :
    (HasTable.table s : Table CardRelation) = s.cardRelations := rfl

@[simp] theorem table_cardWatchers (s : Store) :
    (HasTable.table s : Table CardWatcher) = s.cardWatchers := rfl
@[simp] theorem table_notifications (s : Store) :
    (HasTable.table s : Table Notification) = s.notifications := rfl

@[simp] theorem put_cards (s : Store) (t : Table Card) : HasTable.put s t = { s with cards := t } := rfl
@[simp] theorem put_lanes (s : Store) (t : Table Lane) : HasTable.put s t = { s with lanes := t } := rfl
@[simp] theorem put_locations (s : Store) (t : Table Location) :
    HasTable.put s t = { s with locations := t } := rfl
@[simp] theorem put_tags (s : Store) (t : Table Tag) : HasTable.put s t = { s with tags := t } := rfl
@[simp] theorem put_cardTags (s : Store) (t : Table CardTag) :
    HasTable.put s t = { s with cardTags := t } := rfl
@[simp] theorem put_comments (s : Store) (t : Table Comment) :
    HasTable.put s t = { s with comments := t } := rfl
@[simp] theorem put_attachments (s : Store) (t : Table Attachment) :
    HasTable.put s t = { s with attachments := t } := rfl
@[simp] theorem put_cardEvents (s : Store) (t : Table CardEvent) :
    HasTable.put s t = { s with cardEvents := t } := rfl
@[simp] theorem put_cardRelations (s : Store) (t : Table CardRelation) :
    HasTable.put s t = { s with cardRelations := t } := rfl
@[simp] theorem put_cardWatchers (s : Store) (t : Table CardWatcher) :
    HasTable.put s t = { s with cardWatchers := t } := rfl
@[simp] theorem put_notifications (s : Store) (t : Table Notification) :
    HasTable.put s t = { s with notifications := t } := rfl

end tables

section stamps

/-- The events carry ids and times drawn one after the other between `lo` and `hi`. -/
def Stamped (inputs : ℕ → Tick) : ℕ → List CardEvent → ℕ → Prop
  | lo, [], hi => lo ≤ hi
  | lo, e :: es, hi => ∃ i, lo ≤ i ∧ e.id = (inputs i).id ∧ e.createdAt = (inputs (i + 1)).now ∧
      Stamped inputs (i + 2) es hi

theorem Stamped.le {inputs : ℕ → Tick} {es : List CardEvent} {lo hi : ℕ}
    (h : Stamped inputs lo es hi) : lo ≤ hi := by
  induction es generalizing lo with
  | nil => exact h
  | cons e es ih =>
    obtain ⟨i, hi, _, _, hes⟩ := h
    have := ih hes
    omega

theorem Stamped.widen {inputs : ℕ → Tick} {es : List CardEvent} {lo lo' hi hi' : ℕ}
    (h : Stamped inputs lo es hi) (hlo : lo' ≤ lo) (hhi : hi ≤ hi') :
    Stamped inputs lo' es hi' := by
  induction es generalizing lo lo' with
  | nil =>
    have hle : lo ≤ hi := h
    change lo' ≤ hi'
    omega
  | cons e es ih =>
    obtain ⟨i, hi, hid, hat, hes⟩ := h
    exact ⟨i, hlo.trans hi, hid, hat, ih hes le_rfl⟩

theorem Stamped.append {inputs : ℕ → Tick} {es es' : List CardEvent} {lo mid hi : ℕ}
    (h : Stamped inputs lo es mid) (h' : Stamped inputs mid es' hi) :
    Stamped inputs lo (es ++ es') hi := by
  induction es generalizing lo with
  | nil => exact h'.widen h le_rfl
  | cons e es ih =>
    obtain ⟨i, hi, hid, hat, hes⟩ := h
    exact ⟨i, hi, hid, hat, ih hes⟩

theorem Stamped.sublist {inputs : ℕ → Tick} {es es' : List CardEvent} {lo hi : ℕ}
    (h : Stamped inputs lo es hi) (hs : List.Sublist es' es) : Stamped inputs lo es' hi := by
  induction hs generalizing lo with
  | slnil => exact h
  | cons e hs ih =>
    obtain ⟨i, hi, _, _, hes⟩ := h
    exact (ih hes).widen (by omega) le_rfl
  | cons_cons e hs ih =>
    obtain ⟨i, hi, hid, hat, hes⟩ := h
    exact ⟨i, hi, hid, hat, ih hes⟩

end stamps

variable {w w' : World Store Tick}

@[simp] theorem runs_makeEvent_iff {actor : Actor} {cardId : ℕ} {body : CardEventBody}
    {event : CardEvent} :
    Runs (makeEvent actor cardId body) w event w' ↔
      event = envelope actor cardId body w.peek.id w.tick.peek.now ∧ w' = w.tick.tick := by
  simp [makeEvent, and_comm]

theorem stamped_envelope (w : World Store Tick) (actor : Actor) (cardId : ℕ)
    (body : CardEventBody) :
    Stamped w.inputs w.drawn [envelope actor cardId body w.peek.id w.tick.peek.now]
      w.tick.tick.drawn :=
  ⟨w.drawn, le_rfl, rfl, rfl, le_rfl⟩

/-- Reads and draws: the store stays, the inputs go on. -/
structure Drew (w w' : World Store Tick) : Prop where
  store : w'.store = w.store
  inputs : w'.inputs = w.inputs
  drawn : w.drawn ≤ w'.drawn

theorem Drew.refl (w : World Store Tick) : Drew w w := ⟨rfl, rfl, le_rfl⟩

theorem Drew.tick (w : World Store Tick) : Drew w w.tick := ⟨rfl, rfl, Nat.le_succ _⟩

theorem Drew.trans {w₁ w₂ w₃ : World Store Tick} (h : Drew w₁ w₂) (h' : Drew w₂ w₃) :
    Drew w₁ w₃ :=
  ⟨h'.store.trans h.store, h'.inputs.trans h.inputs, h.drawn.trans h'.drawn⟩

/-- A new row goes to the end of its table. -/
theorem runs_append {event : CardEvent} {u : Unit}
    (h : Runs (EventRepository.append event) w u w') :
    w'.store = { w.store with cardEvents := w'.store.cardEvents } ∧
      w'.store.cardEvents.rows = w.store.cardEvents.rows ++ [event] ∧
      w'.inputs = w.inputs ∧ w'.drawn = w.drawn := by
  simp only [EventRepository.append, runs_insertRow_iff, table_cardEvents, put_cardEvents] at h
  obtain ⟨haccepts, _, rfl⟩ := h
  exact ⟨rfl, Table.rows_insert haccepts, rfl, rfl⟩

theorem runs_appendEach {events : List CardEvent} {u : Unit}
    (h : Runs (Program.forEach EventRepository.append events) w u w') :
    w'.store = { w.store with cardEvents := w'.store.cardEvents } ∧
      w'.store.cardEvents.rows = w.store.cardEvents.rows ++ events ∧
      w'.inputs = w.inputs ∧ w'.drawn = w.drawn := by
  induction events generalizing w with
  | nil =>
    obtain ⟨-, rfl⟩ := runs_progPure_iff.mp h
    simp
  | cons event events ih =>
    obtain ⟨_, w₁, happend, hrest⟩ := runs_progBind_iff.mp h
    obtain ⟨hs₁, hlog₁, hi₁, hd₁⟩ := runs_append happend
    obtain ⟨hs, hlog, hi, hd⟩ := ih hrest
    refine ⟨by rw [hs, hs₁], ?_, hi.trans hi₁, hd.trans hd₁⟩
    rw [hlog, hlog₁, List.append_assoc]
    rfl

theorem runs_updateCard {base next : Card} {u : Unit}
    (h : Runs (CardRepository.update base next) w u w') :
    w.store.cards.acceptsUpdate next = true ∧
      w'.store = { w.store with cards := w.store.cards.update next } ∧
      w'.inputs = w.inputs ∧ w'.drawn = w.drawn := by
  simp only [CardRepository.update, runs_updateRow_iff, table_cards, put_cards] at h
  obtain ⟨-, haccepts, -, rfl⟩ := h
  exact ⟨haccepts, rfl, rfl, rfl⟩

/-- The tables a rewrite of a card may write. -/
def rewriteTables : List TableName := [.cards, .cardEvents, .cardWatchers, .tags, .cardTags]

/-- A unit of work rewrote one card's row and appended events about it. -/
structure Rewritten (w w' : World Store Tick) (card next : Card) (events : List CardEvent) :
    Prop where
  found : w.store.cards.find? card.id = some card
  accepted : w.store.cards.acceptsUpdate next = true
  cards : w'.store.cards = w.store.cards.update next
  key : next.id = card.id
  log : w'.store.cardEvents.rows = w.store.cardEvents.rows ++ events
  about : ∀ e ∈ events, e.cardId = card.id
  stamped : Stamped w.inputs w.drawn events w'.drawn
  inputs : w'.inputs = w.inputs
  frame : ∀ name, name ∉ rewriteTables → w.store.SameTable name w'.store

namespace Rewritten

variable {card next : Card} {events : List CardEvent}

theorem find?_self (h : Rewritten w w' card next events) :
    w'.store.cards.find? card.id = some next := by
  rw [h.cards, Table.find?_update h.accepted, h.found]
  exact if_pos h.key

theorem find?_ne (h : Rewritten w w' card next events) {id : ℕ} (hne : id ≠ card.id) :
    w'.store.cards.find? id = w.store.cards.find? id := by
  rw [h.cards]
  refine Table.find?_update_ne fun hk => hne ?_
  change next.id = id at hk
  rw [← hk, h.key]

theorem mem_cards (h : Rewritten w w' card next events) {c : Card} (hc : c ∈ w'.store.cards.rows) :
    c = next ∨ c ∈ w.store.cards.rows ∧ c.id ≠ card.id := by
  have hfind : w'.store.cards.find? c.id = some c := Table.find?_of_mem hc
  by_cases hid : c.id = card.id
  · rw [hid, h.find?_self] at hfind
    exact .inl (Option.some.inj hfind).symm
  · rw [h.find?_ne hid] at hfind
    exact .inr ⟨Table.mem_of_find? hfind, hid⟩

theorem mem_cards_iff (h : Rewritten w w' card next events) {c : Card} :
    c ∈ w'.store.cards.rows ↔ c = next ∨ c ∈ w.store.cards.rows ∧ c.id ≠ card.id := by
  refine ⟨h.mem_cards, ?_⟩
  rintro (rfl | ⟨hold, hne⟩)
  · exact Table.mem_of_find? h.find?_self
  · exact Table.mem_of_find? ((h.find?_ne hne).trans (Table.find?_of_mem hold))

/-- What was drawn before does not matter. -/
theorem of_drew {w₁ : World Store Tick} (h : Rewritten w₁ w' card next events) (hdrew : Drew w w₁) :
    Rewritten w w' card next events where
  found := hdrew.store ▸ h.found
  accepted := hdrew.store ▸ h.accepted
  cards := hdrew.store ▸ h.cards
  key := h.key
  log := hdrew.store ▸ h.log
  about := h.about
  stamped := by
    have hstamped := h.stamped
    rw [hdrew.inputs] at hstamped
    exact hstamped.widen hdrew.drawn le_rfl
  inputs := h.inputs.trans hdrew.inputs
  frame := hdrew.store ▸ h.frame

theorem mem_log (h : Rewritten w w' card next events) {e : CardEvent} :
    e ∈ w'.store.cardEvents.rows ↔ e ∈ w.store.cardEvents.rows ∨ e ∈ events := by
  rw [h.log, List.mem_append]

theorem lanes (h : Rewritten w w' card next events) : w'.store.lanes = w.store.lanes :=
  h.frame .lanes (by decide)

end Rewritten

/-- The end of every mutation with one event: the row and its event, nothing else. -/
theorem runs_writeWithEvent {w₁ : World Store Tick} {actor : Actor} {card updated r : Card}
    {body : CardEventBody} (h : Runs (CardService.writeWithEvent actor card updated body) w₁ r w')
    (hdrew : Drew w w₁) (hfound : w.store.cards.find? card.id = some card)
    (hid : updated.id = card.id) :
    r = updated ∧ ∃ event, event.body = body ∧ Rewritten w w' card updated [event] ∧
      w'.store.tags = w.store.tags ∧ w'.store.cardTags = w.store.cardTags := by
  simp only [CardService.writeWithEvent, runs_bind_iff, runs_makeEvent_iff, runs_pure_iff] at h
  obtain ⟨_, w₂, hupdate, event, w₃, ⟨rfl, rfl⟩, _, w₄, happend, rfl, rfl⟩ := h
  obtain ⟨haccepts, hs₂, hi₂, hd₂⟩ := runs_updateCard hupdate
  obtain ⟨hs₄, hlog, hi₄, hd₄⟩ := runs_append happend
  simp only [World.tick_store, World.tick_inputs, World.tick_drawn] at hs₄ hlog hi₄ hd₄
  rw [hdrew.store] at haccepts hs₂
  rw [hs₂] at hs₄ hlog
  refine ⟨rfl, envelope actor card.id body w₂.peek.id w₂.tick.peek.now, rfl, ?_, by rw [hs₄],
    by rw [hs₄]⟩
  exact {
    found := hfound
    accepted := haccepts
    cards := by rw [hs₄]
    key := hid
    log := hlog
    about := by simp [envelope]
    stamped := by
      have hst := stamped_envelope w₂ actor card.id body
      rw [hi₂, hd₂, hdrew.inputs] at hst
      exact hst.widen hdrew.drawn (by simp only [World.tick_drawn]; omega)
    inputs := by rw [hi₄, hi₂, hdrew.inputs]
    frame := by
      intro name hname
      rw [hs₄]
      cases name <;> first | rfl | exact absurd (by decide) hname }

end AiKanban.Effects
