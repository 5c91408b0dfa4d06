import AiKanban.Invariants.CardView

/-!
# Replaying the audit trail

The events of a card, read from its creation on, lead to the stored card, and every one
of them records the state it changes as it was.
-/
namespace AiKanban.Invariants

open Domain Db Relational Services Services.CardService Transactions Effects EventSourcing
open Application

/-- The log of a card starts with its creation, in a lane that is still there, and leads to a
view that is related to the stored card. -/
def Replays (shows' : Store → Card → CardView → Prop) (s : Store) (card : Card) : Prop :=
  ∃ first snapshot rest lane, eventsOf s card.id = first :: rest ∧ first.body = .created snapshot ∧
    lane ∈ s.lanes.rows ∧ lane.id = snapshot.card.laneId ∧
    trail.Follows (shows' s) (CardView.start lane.key snapshot) rest card

/-- The card of an id follows its log, or there is neither. -/
structure TrailAt (s : Store) (cardId : ℕ) : Prop where
  lost : s.cards.find? cardId = none → eventsOf s cardId = []
  replays : ∀ card, s.cards.find? cardId = some card → Replays Tracks s card

/-- Every card follows its log, and no log is left of a card that is gone. -/
structure TrailKept (s : Store) : Prop where
  known : TagsKnown s
  trails : ∀ cardId, TrailAt s cardId

/-- The operation neither takes lanes away nor takes locations off cards. -/
def KeepsTrail : Operation → Prop
  | .administration (.removeLane ..) => False
  | .administration (.deleteLocation ..) => False
  | _ => True

instance : DecidablePred KeepsTrail
  | .administration (.removeLane ..) | .administration (.deleteLocation ..) =>
      inferInstanceAs (Decidable False)
  | .card _ | .collaboration _ => inferInstanceAs (Decidable True)
  | .administration (.getPolicy ..) | .administration (.applyPolicy ..)
  | .administration (.createBoard ..) | .administration (.updateBoard ..)
  | .administration (.removeBoard ..) | .administration (.setPreference ..)
  | .administration (.saveGroup ..) | .administration (.removeGroup ..)
  | .administration (.createLane ..) | .administration (.updateLane ..)
  | .administration (.reorderLanes ..) | .administration (.createLocation ..)
  | .administration (.updateLocation ..) | .administration (.createUser ..)
  | .administration (.updateUser ..) => inferInstanceAs (Decidable True)

theorem KeepsTrail.not_removesLane {op : Operation} (h : KeepsTrail op) : ¬ RemovesLane op := by
  cases op with
  | administration op => cases op <;> first | exact h.elim | exact id
  | _ => exact id

variable {s s' : Store} {card card' : Card} {v : CardView} {w w' : World Store Tick}

theorem cancellationsOf_eq (s : Store) (cardId : ℕ) :
    cancellationsOf s cardId = (eventsOf s cardId).filter fun e =>
      [CardEventType.cancelled].contains e.body.eventType := by
  unfold cancellationsOf eventsOf
  rw [List.filter_filter]
  exact List.filter_congr fun e _ => Bool.and_comm ..

/-- A view goes on showing a card of which nothing else is rewritten. -/
theorem Tracks.frame (h : Tracks s card v) {alerted : Option Instant}
    (hrow : card' = { card with resumeAlertedAt := alerted })
    (htags : tagNames s' card.id = tagNames s card.id)
    (hevents : cancellationsOf s' card.id = cancellationsOf s card.id)
    (hlanes : LaneRows s s') : Tracks s' card' v := by
  obtain ⟨lane, ⟨hmem, hid, hboard⟩, hkey⟩ := h.lane
  obtain ⟨lane', hmem', hid', hkey', hboard'⟩ := hlanes lane hmem
  subst hrow
  exact { h with
    tags := h.tags.trans (by rw [htags])
    lane := ⟨lane', ⟨hmem', hid'.trans hid, hboard'.trans hboard⟩, hkey'.trans hkey⟩
    cancellations := h.cancellations.trans hevents.symm }

theorem Replays.frame (h : Replays Tracks s card) (hlanes : LaneRows s s') {alerted : Option Instant}
    (hrow : card' = { card with resumeAlertedAt := alerted })
    (htags : tagNames s' card.id = tagNames s card.id)
    (hevents : eventsOf s' card.id = eventsOf s card.id) : Replays Tracks s' card' := by
  obtain ⟨first, snapshot, rest, lane, hlog, hbody, hmem, hid, hfollows⟩ := h
  obtain ⟨lane', hmem', hid', hkey', -⟩ := hlanes lane hmem
  refine ⟨first, snapshot, rest, lane', ?_, hbody, hmem', hid'.trans hid, ?_⟩
  · rw [hrow]
    exact hevents.trans hlog
  · rw [hkey']
    refine hfollows.mono fun v hv => hv.frame hrow htags ?_ hlanes
    rw [cancellationsOf_eq, hevents, cancellationsOf_eq]

theorem TrailAt.frame {id : ℕ} (h : TrailAt s id) (hlanes : LaneRows s s')
    (hcard : s'.cards.find? id = s.cards.find? id) (htags : tagNames s' id = tagNames s id)
    (hevents : eventsOf s' id = eventsOf s id) : TrailAt s' id where
  lost := fun hnone => hevents.trans (h.lost (hcard ▸ hnone))
  replays := by
    intro card hfound
    have hid : card.id = id := Table.find?_key hfound
    exact (h.replays card (hcard ▸ hfound)).frame hlanes rfl (hid.symm ▸ htags) (hid.symm ▸ hevents)

theorem TrailAt.of_dossier {id : ℕ} (h : TrailAt s id) (hlanes : LaneRows s s')
    (hsame : dossier s' id = dossier s id) : TrailAt s' id :=
  h.frame hlanes (congrArg Dossier.card hsame) (congrArg Dossier.tags hsame)
    (congrArg Dossier.events hsame)

/-- A card goes on following its log when the events that are added tell of its rewrite. -/
theorem Replays.append {events : List CardEvent} (h : Replays Tracks s card)
    (hlanes : LaneRows s s') (hid : card'.id = card.id)
    (hlog : eventsOf s' card.id = eventsOf s card.id ++ events)
    (hstep : ∀ v, Tracks s card v → ∃ v', trail.Reads v events v' ∧ Tracks s' card' v') :
    Replays Tracks s' card' := by
  obtain ⟨first, snapshot, rest, lane, hold, hbody, hmem, hlane, hfollows⟩ := h
  obtain ⟨lane', hmem', hid', hkey', -⟩ := hlanes lane hmem
  refine ⟨first, snapshot, rest ++ events, lane', ?_, hbody, hmem', hid'.trans hlane, ?_⟩
  · rw [hid, hlog, hold, List.cons_append]
  · rw [hkey']
    obtain ⟨hcoherent, hlast⟩ := hfollows
    obtain ⟨v', hreads, htracks⟩ := hstep _ hlast
    have hall := (Projection.Reads.mk hcoherent rfl).append hreads
    exact ⟨hall.coherent, hall.fold.symm ▸ htracks⟩

/-- The creation of a card starts its log. -/
theorem replays_created {deps : CardServiceDeps} {resolved : List Tag} {event : CardEvent}
    (h : Created deps w w' card resolved event) (hlost : eventsOf w.store card.id = []) :
    Replays Tracks w'.store card := by
  obtain ⟨input, options, origin, reporterId, lane, position, nowIso, hentry, hrow⟩ := h.row
  obtain ⟨hmem, hboard⟩ := entryLane_mem hentry
  have hlanes : w'.store.lanes = w.store.lanes := h.frame .lanes (by decide)
  have hlog : eventsOf w'.store card.id = [event] := by
    have habout : ∀ e ∈ [event], e.cardId = card.id := by simp [h.about]
    rw [eventsOf_append h.log habout, hlost, if_pos rfl, List.nil_append]
  have hnames : (resolved.map (·.name)).toFinset = (tagNames w'.store card.id).toFinset := by
    ext name
    rw [List.mem_toFinset, List.mem_toFinset, h.tags.mem_tagNames]
  have hof : LaneOf w'.store card lane := by
    rw [hrow]
    exact ⟨by rwa [hlanes], rfl, hboard⟩
  refine ⟨event, _, [], lane, hlog, h.body, hof.1, hof.2.1, trivial, ?_⟩
  have hcanc : cancellationsOf w'.store card.id = [] := by
    rw [cancellationsOf_eq, hlog]
    simp [h.body, CardEventBody.eventType]
  have hopened : card.resolution = none := by rw [hrow]; rfl
  have hwaiting : card.waitingReason = none ∧ card.expectedResumeAt = none := by
    rw [hrow]
    exact ⟨rfl, rfl⟩
  exact {
    title := rfl
    description := rfl
    priority := rfl
    estimateMinutes := rfl
    assigneeId := rfl
    locationId := rfl
    tags := hnames
    lane := ⟨lane, hof, rfl⟩
    resolution := rfl
    archived := rfl
    blocked := rfl
    blockedReason := rfl
    waitingReason := fun _ hk => Option.some.inj hk
    expectedResumeAt := fun _ hk => Option.some.inj hk
    cancellations := hcanc.symm
    opened := fun _ => hopened
    waiting := fun _ => hwaiting }

/-- An event on a card's threads leaves its view alone. -/
theorem apply_of_onThread {e : CardEvent} (h : onThread e.body = true) :
    v.apply e = v ∧ v.Fits e := by
  unfold CardView.apply CardView.Fits
  cases hbody : e.body <;> simp [hbody, onThread] at h ⊢

theorem replays_noted {event : CardEvent} (h : Replays Tracks w.store card)
    (hlanes : LaneRows w.store w'.store) (hnoted : Noted w w' card.id event) :
    Replays Tracks w'.store card := by
  have habout : ∀ e ∈ [event], e.cardId = card.id := by simp [hnoted.about]
  have hcardTags : w'.store.cardTags = w.store.cardTags := hnoted.frame .cardTags (by decide)
  have htags : w'.store.tags = w.store.tags := hnoted.frame .tags (by decide)
  refine h.append hlanes rfl (by rw [eventsOf_append hnoted.log habout, if_pos rfl]) fun v hv => ?_
  obtain ⟨happly, hfits⟩ := apply_of_onThread (v := v) hnoted.thread
  refine ⟨v, ⟨⟨hfits, trivial⟩, happly⟩, hv.frame rfl ?_ ?_ hlanes⟩
  · rw [tagNames, TagRepository.cardTagRows, htags, hcardTags, tagNames, TagRepository.cardTagRows]
  · have hbody : event.body.eventType ≠ .cancelled := by
      have hthread := hnoted.thread
      cases hbody : event.body <;> simp [hbody, onThread, CardEventBody.eventType] at hthread ⊢
    rw [cancellationsOf_append card.id hnoted.log habout, if_pos rfl]
    simpa using hbody

section runs

variable [Platform]

theorem trailKept_effect {op : Operation} (h : TrailKept w.store) (heffect : Effect w w' op)
    (hop : KeepsTrail op) : TrailKept w'.store := by
  refine ⟨tagsKnown_effect h.known heffect, fun id => ?_⟩
  have hlanes := heffect.laneRows hop.not_removesLane
  have hid := h.trails id
  cases heffect with
  | untouched huntouched => exact hid.of_dossier hlanes (dossier_untouched h.known huntouched)
  | @created _ _ _ _ card _ _ hcreated =>
    by_cases heq : id = card.id
    · subst heq
      have hnone : w.store.cards.find? card.id = none := Table.find?_of_accepts hcreated.accepted
      have hfound : w'.store.cards.find? card.id = some card := by
        rw [hcreated.cards]
        exact Table.find?_of_mem (Table.mem_insert.mpr (.inr ⟨hcreated.accepted, rfl⟩))
      refine ⟨fun hgone => ?_, fun found hfound' => ?_⟩
      · rw [hfound] at hgone
        cases hgone
      · rw [hfound] at hfound'
        cases hfound'
        exact replays_created hcreated (hid.lost hnone)
    · exact hid.of_dossier hlanes (dossier_created h.known hcreated heq)
  | @changed _ card next _ hchanged =>
    by_cases heq : id = card.id
    · subst heq
      have hr := hchanged.rewritten
      refine ⟨fun hgone => ?_, fun found hfound => ?_⟩
      · rw [hr.find?_self] at hgone
        cases hgone
      · rw [hr.find?_self] at hfound
        cases hfound
        refine (hid.replays card hr.found).append hlanes hr.key ?_ fun v hv =>
          tracks_changed h.known hchanged hv
        rw [eventsOf_append hr.log hr.about, if_pos rfl]
    · exact hid.of_dossier hlanes (dossier_changed h.known hchanged heq)
  | @discarded _ deletedId _ _ _ hdiscarded =>
    by_cases heq : id = deletedId
    · subst heq
      refine ⟨fun _ => ?_, fun card hfound => ?_⟩
      · rw [eventsOf, hdiscarded.cardEvents]
        exact List.filter_eq_nil_iff.mpr fun e he => by simpa using (Table.mem_remove.mp he).2
      · rw [find?_discarded_self hdiscarded] at hfound
        cases hfound
    · exact hid.frame hlanes (find?_discarded hdiscarded heq) (tagNames_discarded hdiscarded heq)
        (eventsOf_discarded hdiscarded heq)
  | alerted halerted =>
    rcases halerted.cards id with hsame | ⟨card, nowIso, hfound, -, -, hmarked⟩
    · exact hid.of_dossier hlanes (dossier_alerted h.known halerted hsame)
    · refine ⟨fun hgone => ?_, fun found hfound' => ?_⟩
      · rw [hmarked] at hgone
        cases hgone
      · rw [hmarked] at hfound'
        cases hfound'
        have hcardTags : w'.store.cardTags = w.store.cardTags := halerted.frame .cardTags (by decide)
        have hevents : w'.store.cardEvents = w.store.cardEvents :=
          halerted.frame .cardEvents (by decide)
        refine (hid.replays card hfound).frame hlanes rfl ?_ ?_
        · exact tagNames_congr h.known (.of_tags (halerted.frame .tags (by decide)))
            (by rw [cardTagsOf, hcardTags, cardTagsOf])
        · rw [eventsOf, hevents, eventsOf]
  | @noted _ notedId event hnoted =>
    have hcards : w'.store.cards = w.store.cards := hnoted.frame .cards (by decide)
    have hcardTags : w'.store.cardTags = w.store.cardTags := hnoted.frame .cardTags (by decide)
    by_cases heq : id = notedId
    · subst heq
      obtain ⟨noted, hnoted', -⟩ := hnoted.active
      refine ⟨fun hgone => ?_, fun card hfound => ?_⟩
      · rw [hcards, hnoted'] at hgone
        cases hgone
      · rw [hcards] at hfound
        have hid' : card.id = id := Table.find?_key hfound
        exact replays_noted (hid.replays card hfound) hlanes (hid' ▸ hnoted)
    · exact hid.of_dossier hlanes (dossier_noted h.known hnoted heq)
  | related _ _ hlinked | unrelated _ hlinked =>
    refine hid.frame hlanes ?_ ?_ ?_ <;> rw [hlinked.store] <;> rfl
  | unlocated => exact hop.elim

theorem trailKept_run (inputs : ℕ → Tick) (ops : List Operation) (hops : ∀ op ∈ ops, KeepsTrail op) :
    TrailKept (run (freshlySeeded inputs) ops).store := by
  refine run_invariant (I := fun w => TrailKept w.store) (P := fun _ op => KeepsTrail op)
    (fun _ _ _ _ hop => hop) (fun _ _ _ hop => hop)
    (fun _ _ _ hw hop heffect => trailKept_effect hw heffect hop) ops ?_ (runsUnder_of_forall hops)
  refine ⟨by simp [TagsKnown], fun id => ⟨fun _ => by simp [eventsOf], fun card hcard => ?_⟩⟩
  have hmem := Table.mem_of_find? hcard
  simp at hmem

/-- In every run that takes no lane away and no location off a card, the log of a card leads from
its creation to the stored card, and each event fits the view just before it. -/
theorem audit_replay (inputs : ℕ → Tick) (ops : List Operation) (hops : ∀ op ∈ ops, KeepsTrail op)
    (card : Card) (hcard : card ∈ (run (freshlySeeded inputs) ops).store.cards.rows) :
    Replays Shows (run (freshlySeeded inputs) ops).store card := by
  obtain ⟨first, snapshot, rest, lane, hlog, hbody, hmem, hid, hfollows⟩ :=
    ((trailKept_run inputs ops hops).trails card.id).replays card (Table.find?_of_mem hcard)
  exact ⟨first, snapshot, rest, lane, hlog, hbody, hmem, hid,
    hfollows.mono fun _ hv => hv.toShows⟩

end runs

/-- A card that waits for parts, and then for a vendor. -/
def rewaitedRun : List Operation :=
  [.card (.create ⟨101, 102, .sqlite⟩ sampleActor { title := "Pump" } {}),
    .card (.move sampleActor 1 ⟨"waiting_parts_vendor", none, none, some "parts", some 20000, 1⟩),
    .card (.update ⟨101, 102, .sqlite⟩ sampleActor 1
      { waitingReason := some "vendor", expectedVersion := 2 })]

theorem audit_replay_rewaited :
    (@run samplePlatform (freshlySeeded sampleTicks) rewaitedRun).store.cards.rows ≠ [] ∧
      ∀ card ∈ (@run samplePlatform (freshlySeeded sampleTicks) rewaitedRun).store.cards.rows,
        Replays Shows (@run samplePlatform (freshlySeeded sampleTicks) rewaitedRun).store card :=
  ⟨by decide +kernel, fun card hcard =>
    @audit_replay samplePlatform sampleTicks rewaitedRun (by decide) card hcard⟩

/-- The old and the new waiting reason of a change of it. -/
def reasonChange? : CardEventBody → Option (Option WaitingReason × Option WaitingReason)
  | .fieldChanged (.waitingReason before after) => some (before, after)
  | _ => none

/-- The waiting reason as the events name it. -/
def namedReason : Projection CardEvent (Option WaitingReason) where
  apply reason e := match e.body with
    | .created snapshot => snapshot.card.waitingReason
    | body => ((reasonChange? body).map (·.2)).getD reason
  fits reason e := ∀ change ∈ reasonChange? e.body, change.1 = reason

instance (reason : Option WaitingReason) (e : CardEvent) : Decidable (namedReason.fits reason e) :=
  inferInstanceAs (Decidable (∀ change ∈ reasonChange? e.body, change.1 = reason))

/-- The reason a card enters the waiting lane with is in none of its events, so the next change
of the reason records one that no event has set. -/
theorem audit_replay_fails : ¬ ∀ (_ : Platform) (inputs : ℕ → Tick) (ops : List Operation),
    (∀ op ∈ ops, KeepsTrail op) → ∀ card ∈ (run (freshlySeeded inputs) ops).store.cards.rows,
      namedReason.Coherent none (eventsOf (run (freshlySeeded inputs) ops).store card.id) := by
  intro h
  refine absurd (h samplePlatform sampleTicks rewaitedRun (by decide)) ?_
  decide +kernel

end AiKanban.Invariants
