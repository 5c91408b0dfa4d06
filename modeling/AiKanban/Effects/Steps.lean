import AiKanban.Effects.Threads
import AiKanban.Db.Seed

/-!
# What an operation can do

Every unit of work of every operation has one of the effects listed here. What a
run keeps is proved by cases on them, once for each invariant.
-/
namespace AiKanban.Effects

open Domain Db Policy Relational Services Server Transactions
open Application

/-- The tables that hold a card and what hangs on it. -/
def dossierTables : List TableName :=
  [.cards, .cardTags, .comments, .attachments, .cardEvents, .cardRelations]

/-- A unit of work that leaves every card with its lane's key, its tags and its log. -/
structure Untouched (w w' : World Store Tick) : Prop where
  lanes : LanesKept w.store w'.store
  tags : TagsGrow w.store w'.store
  frame : ∀ name ∈ dossierTables, w.store.SameTable name w'.store
  inputs : w'.inputs = w.inputs
  drawn : w.drawn ≤ w'.drawn

/-- The operation is the only one that may take a lane away. -/
def RemovesLane : Operation → Prop
  | .administration (.removeLane ..) => True
  | _ => False

/-- What one unit of work of an operation did. -/
inductive Effect [Platform] (w w' : World Store Tick) : Operation → Prop where
  | untouched {op : Operation} (h : Untouched w w')
      (rows : RemovesLane op ∨ LaneRows w.store w'.store) : Effect w w' op
  | created {deps : CardServiceDeps} {actor : Actor} {raw : CreateCardInput}
      {options : CreateCardOptions} {card : Card} {resolved : List Tag} {event : CardEvent}
      (h : Created deps w w' card resolved event) :
      Effect w w' (.card (.create deps actor raw options))
  | changed {op : CardOperation} {card next : Card} {events : List CardEvent}
      (h : Changed op w w' card next events) : Effect w w' (.card op)
  | discarded {actor : Actor} {cardId expectedVersion : ℕ} {card : Card}
      (checks : Runs (CardService.deleteChecks actor cardId expectedVersion) w card w)
      (h : Discarded w w' cardId) : Effect w w' (.card (.delete actor cardId expectedVersion))
  | alerted {deps : CardServiceDeps} (h : Alerted w w') :
      Effect w w' (.card (.claimOverdueWaitingAlerts deps))
  | noted {op : CollaborationOperation} {cardId : ℕ} {event : CardEvent}
      (h : Noted w w' cardId event) : Effect w w' (.collaboration op)
  | related {actor : Actor} {cardId : ℕ} {raw : CreateCardRelationInput}
      {checked : RelationType × Card × Card}
      (checks : Runs (CardRelationService.createChecks actor cardId raw) w checked w)
      (accepted : w.store.cardRelations.accepts (linkRow w checked) = true)
      (h : Linked w w' (w.store.cardRelations.insert (linkRow w checked))) :
      Effect w w' (.collaboration (.createRelation actor cardId raw))
  | unrelated {actor : Actor} {cardId : ℕ} {relationId : Uuid} {relation : CardRelation}
      (checks : Runs (CardRelationService.deleteChecks actor cardId relationId) w relation w)
      (h : Linked w w' (w.store.cardRelations.remove fun r => r.id == relationId)) :
      Effect w w' (.collaboration (.deleteRelation actor cardId relationId))
  | unlocated {boardId : Uuid} {actor : Actor} {locationId : Uuid}
      (granted : Runs (ensureGranted actor .manageLocations boardId) w () w)
      (found : ∃ location, w.store.locations.find? locationId = some location)
      (h : Unlocated w w' (LocationRepository.collectSubtree w.store.locations.rows locationId)) :
      Effect w w' (.administration (.deleteLocation boardId actor locationId))

theorem Untouched.of_drew {w w' : World Store Tick} (h : Drew w w') : Untouched w w' where
  lanes := .of_lanes (by rw [h.store])
  tags := .of_tags (by rw [h.store])
  frame := fun _ _ => sameTable_of_store h.store
  inputs := h.inputs
  drawn := h.drawn

theorem Effect.of_drew [Platform] {w w' : World Store Tick} {op : Operation} (h : Drew w w') :
    Effect w w' op :=
  .untouched (.of_drew h) (.inr (.of_lanes (by rw [h.store])))

/-- A body that writes none of a card's tables leaves every card alone. -/
theorem Untouched.of_confined {α : Type} {names : List TableName} {p : Tx α} {a : α}
    {w w' : World Store Tick} (h : Runs p w a w') (hp : Confined names p)
    (hnames : ∀ name ∈ .tags :: dossierTables, name ∉ names)
    (hlanes : LanesKept w.store w'.store) : Untouched w w' where
  lanes := hlanes
  tags := .of_tags (sameTable_of_confined h hp (hnames .tags (by simp)))
  frame := fun name hname =>
    sameTable_of_confined h hp (hnames name (List.mem_cons_of_mem _ hname))
  inputs := h.inputs
  drawn := h.drawn_le

section growth

/-- No card is gone and no event is. -/
structure Grows (s s' : Store) : Prop where
  cards : ∀ card ∈ s.cards.rows, ∃ card' ∈ s'.cards.rows, card'.id = card.id
  log : ∀ e ∈ s.cardEvents.rows, e ∈ s'.cardEvents.rows

theorem Grows.of_frame {s s' : Store} (hcards : s'.cards = s.cards)
    (hlog : ∀ e ∈ s.cardEvents.rows, e ∈ s'.cardEvents.rows) : Grows s s' where
  cards := fun card hcard => ⟨card, by rwa [hcards], rfl⟩
  log := hlog

variable {w w' : World Store Tick}

theorem Alerted.grows (h : Alerted w w') : Grows w.store w'.store where
  cards := by
    intro card hcard
    have hfind : w.store.cards.find? card.id = some card := Table.find?_of_mem hcard
    rcases h.cards card.id with hsame | ⟨_, nowIso, hfound, -, -, hmarked⟩
    · exact ⟨card, Table.mem_of_find? (hsame.trans hfind), rfl⟩
    · exact ⟨_, Table.mem_of_find? hmarked, Table.find?_key hmarked⟩
  log := by
    intro e he
    rwa [show w'.store.cardEvents = w.store.cardEvents from h.frame .cardEvents (by decide)]

theorem Rewritten.grows {card next : Card} {events : List CardEvent}
    (h : Rewritten w w' card next events) : Grows w.store w'.store where
  cards := by
    intro c hc
    have hfind : w.store.cards.find? c.id = some c := Table.find?_of_mem hc
    by_cases hid : c.id = card.id
    · exact ⟨next, Table.mem_of_find? h.find?_self, h.key.trans hid.symm⟩
    · exact ⟨c, Table.mem_of_find? ((h.find?_ne hid).trans hfind), rfl⟩
  log := fun e he => h.mem_log.mpr (.inl he)

theorem Unlocated.grows {subtree : List Uuid} (h : Unlocated w w' subtree) :
    Grows w.store w'.store where
  cards := by
    intro card hcard
    rw [h.cards]
    refine ⟨_, List.mem_map.mpr ⟨card, hcard, rfl⟩, ?_⟩
    split_ifs <;> rfl
  log := by
    intro e he
    have hlog : w'.store.cardEvents = w.store.cardEvents :=
      h.frame .cardEvents (by decide) (by decide)
    rwa [hlog]

/-- Only a discard takes anything away, and it takes one card with what hangs on it. -/
theorem Effect.grows_or_discarded [Platform] {op : Operation} (h : Effect w w' op) :
    Grows w.store w'.store ∨ ∃ actor cardId expectedVersion card,
      op = .card (.delete actor cardId expectedVersion) ∧
        Runs (CardService.deleteChecks actor cardId expectedVersion) w card w ∧
        Discarded w w' cardId := by
  cases h with
  | untouched h =>
    refine .inl (.of_frame (h.frame .cards (by decide)) fun e he => ?_)
    rwa [show w'.store.cardEvents = w.store.cardEvents from h.frame .cardEvents (by decide)]
  | created h =>
    refine .inl ⟨fun c hc => ⟨c, ?_, rfl⟩, fun e he => ?_⟩
    · rw [h.cards]
      exact Table.mem_insert.mpr (.inl hc)
    · rw [h.log]
      exact List.mem_append_left _ he
  | changed h => exact .inl h.rewritten.grows
  | discarded checks h => exact .inr ⟨_, _, _, _, rfl, checks, h⟩
  | alerted h => exact .inl h.grows
  | noted h =>
    refine .inl (.of_frame (h.frame .cards (by decide)) fun e he => ?_)
    rw [h.log]
    exact List.mem_append_left _ he
  | related _ _ h | unrelated _ h =>
    exact .inl (.of_frame (by rw [h.store]) fun e he => by rwa [h.store])
  | unlocated _ _ h => exact .inl h.grows

/-- Lanes stay with their keys, whatever happens to cards. -/
theorem Effect.laneRows [Platform] {op : Operation} (h : Effect w w' op) (hop : ¬ RemovesLane op) :
    LaneRows w.store w'.store := by
  cases h with
  | untouched _ hrows => exact hrows.resolve_left hop
  | created h => exact .of_lanes (h.frame .lanes (by decide))
  | changed h => exact .of_lanes h.rewritten.lanes
  | discarded _ h => exact .of_lanes h.lanes
  | alerted h => exact .of_lanes (h.frame .lanes (by decide))
  | noted h => exact .of_lanes (h.frame .lanes (by decide))
  | related _ _ h | unrelated _ h => exact .of_lanes (by rw [h.store])
  | unlocated _ _ h => exact .of_lanes (h.frame .lanes (by decide) (by decide))

end growth

section unitsOfWork

variable {w : World Store Tick}

@[simp] theorem runs_discard_iff {α : Type} {p : Tx α} {w' : World Store Tick} {u : Unit} :
    Runs (discard p) w u w' ↔ ∃ a, Runs p w a w' := by
  change Runs ((fun _ => ()) <$> p) w u w' ↔ _
  simp

/-- A body that starts by parsing its input. -/
theorem runs_parse_iff {α β : Type} {value : Except DomainError α} {f : α → Tx β} {b : β}
    {w' : World Store Tick} :
    Runs (Program.ofExcept value >>= f) w b w' ↔ ∃ a, value = .ok a ∧ Runs (f a) w b w' := by
  constructor
  · intro h
    obtain ⟨a, _, hparse, hrest⟩ := runs_bind_iff.mp h
    obtain ⟨hvalue, rfl⟩ := runs_ofExcept_iff.mp hparse
    exact ⟨a, hvalue, hrest⟩
  · rintro ⟨a, hvalue, h⟩
    exact runs_bind_iff.mpr ⟨a, w, runs_ofExcept_iff.mpr ⟨hvalue, rfl⟩, h⟩

/-- Every world of a chain but the first comes from another one. -/
theorem exists_rel_of_isChain {R : World Store Tick → World Store Tick → Prop}
    {first last : World Store Tick} {units : List (World Store Tick)}
    (h : List.IsChain R (first :: units)) (hlast : last ∈ units) : ∃ w₁, R w₁ last := by
  induction units generalizing first with
  | nil => cases hlast
  | cons w₂ units ih =>
    obtain ⟨hfirst, hrest⟩ := List.isChain_cons_cons.mp h
    rcases List.mem_cons.mp hlast with rfl | hlast
    · exact ⟨first, hfirst⟩
    · exact ih hrest hlast

/-- An answer comes from the body, run on the store as it was. -/
theorem perform_retry {α : Type} {body : Tx α} {currentCard : Tx (Option Card)} {a : α}
    {w' : World Store Tick}
    (h : (runWithPositionRetry body currentCard).perform w = (.ok a, w')) :
    ∃ w₁, Drew w w₁ ∧ Runs body w₁ a w' := by
  rcases attempt_cases h with ⟨e, he, -⟩ | ⟨q, hq, b, w₁, hb, hstore, hinputs, hdrawn, hrun⟩
  · cases he
  · cases hb
    refine ⟨w₁, ⟨hstore, hinputs, hdrawn⟩, ?_⟩
    rcases List.mem_cons.mp hq with rfl | hq
    · exact hrun
    rcases List.mem_cons.mp hq with rfl | hq
    · exact hrun
    · rw [List.mem_singleton.mp hq] at hrun
      obtain ⟨_, _, -, hthrow⟩ := runs_bind_iff.mp hrun
      exact absurd hthrow not_runs_throw

variable [Platform] {op : Operation}

/-- A unit of work that is rejected is rolled back. -/
theorem effect_transact {α : Type} {p : Tx α}
    (hok : ∀ a w', Runs p w a w' → Effect w w' op) : Effect w (transact p w).2 op := by
  have hi := transact_inputs p w
  rcases ht : transact p w with ⟨e | a, w'⟩
  · rw [ht] at hi
    exact .of_drew ⟨transact_error ht, hi.1, hi.2⟩
  · exact hok a w' (transact_ok_iff.mp ht)

/-- Which world a unit of work of an operation starts in, and what it does. -/
structure UnitOfWork (w : World Store Tick) (op : Operation) (w₁ w₂ : World Store Tick) : Prop where
  start : w₁.store = w.store ∨ ∃ actor, op = .card (.archiveExpired actor)
  effect : Effect w₁ w₂ op

theorem chain_single {α : Type} {p : Tx α} (hok : ∀ a w', Runs p w a w' → Effect w w' op) :
    List.IsChain (UnitOfWork w op) [w, (transact p w).2] :=
  List.isChain_pair.mpr ⟨.inl rfl, effect_transact hok⟩

/-- The retry runs the same body; what follows it never commits. -/
theorem chain_retry {α : Type} {body : Tx α} {currentCard : Tx (Option Card)}
    (hok : ∀ w₁ a w', Runs body w₁ a w' → Effect w₁ w' op) :
    List.IsChain (UnitOfWork w op) (w :: (runWithPositionRetry body currentCard).units w) := by
  refine attemptUnits_chain fun q hq w₁ hw₁ => ⟨.inl hw₁, effect_transact fun a w' h => ?_⟩
  rcases List.mem_cons.mp hq with rfl | hq
  · exact hok w₁ a w' h
  rcases List.mem_cons.mp hq with rfl | hq
  · exact hok w₁ a w' h
  · rw [List.mem_singleton.mp hq] at h
    obtain ⟨_, _, -, hthrow⟩ := runs_bind_iff.mp h
    exact absurd hthrow not_runs_throw

end unitsOfWork

section sweep

theorem archiveEach_mem_units (actor : Actor) (cutoffIso : Instant) (candidates : List Card)
    (archived : ℕ) (w : World Store Tick) :
    (CardService.archiveEach actor cutoffIso candidates archived w).2 ∈
      w :: archiveEachUnits actor cutoffIso candidates w := by
  induction candidates generalizing archived w with
  | nil => simp [CardService.archiveEach]
  | cons candidate candidates ih =>
    rw [CardService.archiveEach, archiveEachUnits]
    rcases transact (CardService.archiveExpiredBody actor cutoffIso candidate) w with ⟨e | r, w'⟩
    · simp
    · exact List.mem_cons_of_mem w (ih _ w')

theorem archiveExpired_mem_units (actor : Actor) (w : World Store Tick) :
    (CardService.archiveExpired actor w).2 ∈ archiveExpiredUnits actor w := by
  rw [CardService.archiveExpired, archiveExpiredUnits]
  rcases transact CardService.expiredCandidates w with ⟨e | ⟨now, candidates⟩, w'⟩
  · simp
  · exact archiveEach_mem_units _ _ _ _ _

variable [Platform]

theorem archiveEachUnits_chain {w₀ : World Store Tick} {actor : Actor} {cutoffIso : Instant}
    {candidates : List Card} {w : World Store Tick}
    (hdone : ∀ c ∈ candidates, InDoneLane w.store c) :
    List.IsChain (UnitOfWork w₀ (.card (.archiveExpired actor)))
      (w :: archiveEachUnits actor cutoffIso candidates w) := by
  induction candidates generalizing w with
  | nil => exact List.isChain_singleton _
  | cons candidate candidates ih =>
    have hcandidate := hdone candidate (by simp)
    rw [archiveEachUnits]
    have hfirst : UnitOfWork w₀ (.card (.archiveExpired actor)) w
        (transact (CardService.archiveExpiredBody actor cutoffIso candidate) w).2 := by
      refine ⟨.inr ⟨actor, rfl⟩, effect_transact fun r w' h => ?_⟩
      rcases runs_archiveExpiredBody h hcandidate with rfl | ⟨card, next, event, hchanged⟩
      · exact .of_drew (.refl _)
      · exact .changed hchanged
    rcases ht : transact (CardService.archiveExpiredBody actor cutoffIso candidate) w with ⟨e | r, w'⟩
    · rw [ht] at hfirst
      exact List.isChain_pair.mpr hfirst
    · rw [ht] at hfirst
      refine List.isChain_cons_cons.mpr ⟨hfirst, ih fun c hc => ?_⟩
      have hlanes : w'.store.lanes = w.store.lanes := by
        rcases runs_archiveExpiredBody (transact_ok_iff.mp ht) hcandidate with rfl | ⟨_, _, _, hchanged⟩
        · rfl
        · exact hchanged.rewritten.lanes
      unfold InDoneLane
      rw [hlanes]
      exact hdone c (by simp [hc])

theorem archiveExpiredUnits_chain (w : World Store Tick) (actor : Actor) :
    List.IsChain (UnitOfWork w (.card (.archiveExpired actor)))
      (w :: archiveExpiredUnits actor w) := by
  have hi := transact_inputs CardService.expiredCandidates w
  rw [archiveExpiredUnits]
  rcases ht : transact CardService.expiredCandidates w with ⟨e | ⟨now, candidates⟩, w'⟩
  · rw [ht] at hi
    exact List.isChain_pair.mpr
      ⟨.inl rfl, .of_drew ⟨transact_error ht, hi.1, hi.2⟩⟩
  · have h := transact_ok_iff.mp ht
    simp only [CardService.expiredCandidates, runs_bind_iff, runs_clockNow_iff, runs_pure_iff] at h
    obtain ⟨_, _, ⟨rfl, rfl⟩, found, w₁, hfound, hpair, rfl⟩ := h
    cases hpair
    obtain ⟨rfl, hdone⟩ := runs_expiryCandidates hfound
    exact List.isChain_cons_cons.mpr
      ⟨⟨.inl rfl, .of_drew (.tick w)⟩, archiveEachUnits_chain hdone⟩

end sweep

section operations

variable [Platform] {w : World Store Tick}

theorem chain_cardUnits (op : CardOperation) :
    List.IsChain (UnitOfWork w (.card op)) (w :: op.units w) := by
  cases op with
  | create deps actor raw options =>
    refine chain_retry fun w₁ r w' h => ?_
    obtain ⟨input, -, h⟩ := runs_parse_iff.mp h
    obtain ⟨origin, -, h⟩ := runs_parse_iff.mp h
    obtain ⟨resolved, event, hcreated⟩ := runs_createBody h
    exact .created hcreated
  | update deps actor cardId raw =>
    refine chain_single fun r w' h => ?_
    obtain ⟨input, hparse, h⟩ := runs_parse_iff.mp h
    have hi := h.inputs
    have hd := h.drawn_le
    obtain ⟨card, tagChange, hfound, hactive, hversion, hallowed, htags, hcases⟩ :=
      runs_updateBody h
    rcases hcases with ⟨hnone, -, hframe⟩ | ⟨events, updatedAt, rfl, hbodies, hsome, hrewritten⟩
    · have hlanes : w'.store.lanes = w.store.lanes := hframe .lanes (by decide)
      refine .untouched ⟨.of_lanes hlanes, ?_, fun name hname => ?_, hi, hd⟩ (.inr (.of_lanes hlanes))
      · cases htags with
        | kept hgrow _ => exact hgrow
        | replaced hretagged => exact hretagged.grow
      · cases htags with
        | kept _ hsame =>
          by_cases hname' : name = .cardTags
          · subst hname'
            exact hsame
          · refine hframe name fun hmem => ?_
            revert hname hname' hmem
            cases name <;> decide
        | replaced _ => simp [changes] at hnone
    · refine .changed ⟨?_, hrewritten⟩
      rw [hbodies]
      exact .edited hparse hfound hactive hversion hallowed htags hsome
  | move actor cardId raw =>
    refine chain_retry fun w₁ r w' h => ?_
    obtain ⟨input, hparse, h⟩ := runs_parse_iff.mp h
    obtain ⟨card, event, hchanged⟩ := runs_moveBody hparse h
    exact .changed hchanged
  | cancel actor cardId raw =>
    refine chain_retry fun w₁ r w' h => ?_
    obtain ⟨input, hparse, h⟩ := runs_parse_iff.mp h
    obtain ⟨card, event, hchanged⟩ := runs_cancelBody hparse h
    exact .changed hchanged
  | reopen actor cardId raw =>
    refine chain_retry fun w₁ r w' h => ?_
    obtain ⟨input, hparse, h⟩ := runs_parse_iff.mp h
    obtain ⟨card, event, hchanged⟩ := runs_reopenBody hparse h
    exact .changed hchanged
  | archive actor cardId raw =>
    refine chain_single fun r w' h => ?_
    obtain ⟨input, hparse, h⟩ := runs_parse_iff.mp h
    obtain ⟨card, event, hchanged⟩ := runs_archiveBody hparse h
    exact .changed hchanged
  | block actor cardId raw =>
    refine chain_single fun r w' h => ?_
    obtain ⟨input, hparse, h⟩ := runs_parse_iff.mp h
    obtain ⟨card, event, hchanged⟩ := runs_blockBody hparse h
    exact .changed hchanged
  | unblock actor cardId raw =>
    refine chain_single fun r w' h => ?_
    obtain ⟨input, hparse, h⟩ := runs_parse_iff.mp h
    obtain ⟨card, event, hchanged⟩ := runs_unblockBody hparse h
    exact .changed hchanged
  | delete actor cardId expectedVersion =>
    refine chain_single fun keys w' h => ?_
    obtain ⟨⟨card, hchecks⟩, hdiscarded⟩ := runs_deleteBody h
    exact .discarded hchecks hdiscarded
  | archiveExpired actor => exact archiveExpiredUnits_chain w actor
  | claimOverdueWaitingAlerts deps =>
    refine chain_single fun alerts w' h => ?_
    replace h := runs_bind_iff.mp h
    obtain ⟨now, _, hnow, h⟩ := h
    obtain ⟨-, rfl⟩ := runs_clockNow_iff.mp hnow
    exact .alerted ((Alerted.of_drew (.tick w)).trans (runs_claimOverdueBody h))

theorem effect_collaboration (op : CollaborationOperation) :
    Effect w (transact op.body w).2 (.collaboration op) := by
  refine effect_transact fun u w' h => ?_
  have hread : ∀ {α : Type} {p : Tx α}, p.ReadsOnly → Runs (discard p) w u w' →
      Effect w w' (.collaboration op) := by
    intro α p hp h
    obtain ⟨a, h⟩ := runs_discard_iff.mp h
    obtain rfl := h.of_readsOnly hp
    exact .of_drew (.refl _)
  cases op with
  | addComment actor cardId raw author =>
    obtain ⟨r, h⟩ := runs_discard_iff.mp h
    obtain ⟨event, hnoted⟩ := runs_addComment h
    exact .noted hnoted
  | editComment actor commentId raw =>
    obtain ⟨r, h⟩ := runs_discard_iff.mp h
    obtain ⟨cardId, event, hnoted⟩ := runs_editComment h
    exact .noted hnoted
  | softDeleteComment actor commentId =>
    obtain ⟨r, h⟩ := runs_discard_iff.mp h
    obtain ⟨cardId, event, hnoted⟩ := runs_softDeleteComment h
    exact .noted hnoted
  | listComments actor cardId => exact hread (readsOnly_listForCard _ _) h
  | addAttachment actor cardId raw =>
    obtain ⟨r, h⟩ := runs_discard_iff.mp h
    obtain ⟨event, hnoted⟩ := runs_addAttachment h
    exact .noted hnoted
  | getAttachment actor attachmentId => exact hread (readsOnly_getActive _ _) h
  | removeAttachment actor attachmentId =>
    obtain ⟨r, h⟩ := runs_discard_iff.mp h
    obtain ⟨cardId, event, hnoted⟩ := runs_removeAttachment h
    exact .noted hnoted
  | createRelation actor cardId raw =>
    obtain ⟨r, h⟩ := runs_discard_iff.mp h
    obtain ⟨checked, hchecks, haccepts, -, rfl⟩ := runs_createRelation_iff.mp h
    exact .related hchecks haccepts ⟨rfl, rfl, Nat.le_add_right w.drawn 2⟩
  | deleteRelation actor cardId relationId =>
    obtain ⟨⟨relation, hchecks⟩, rfl⟩ := runs_deleteRelation_iff.mp h
    exact .unrelated hchecks ⟨rfl, rfl, le_rfl⟩
  | listRelations actor cardId => exact hread (readsOnly_listRelations _ _) h

/-- An administrative body outside the lanes leaves every card alone. -/
theorem effect_confined {α : Type} {names : List TableName} {p : Tx α} {a : α} {op : Operation}
    {w' : World Store Tick} (h : Runs p w a w') (hp : Confined names p)
    (hnames : ∀ name ∈ .lanes :: .tags :: dossierTables, name ∉ names) : Effect w w' op := by
  have hlanes : w'.store.lanes = w.store.lanes :=
    sameTable_of_confined h hp (hnames .lanes (List.mem_cons_self ..))
  refine .untouched (.of_confined h hp ?_ (.of_lanes hlanes)) (.inr (.of_lanes hlanes))
  exact fun name hname => hnames name (List.mem_cons_of_mem _ hname)

/-- An administrative body that writes lanes but keeps all of them. -/
theorem effect_lanes {α : Type} {names : List TableName} {p : Tx α} {a : α} {op : Operation}
    {w' : World Store Tick} (h : Runs p w a w') (hp : Confined names p)
    (hnames : ∀ name ∈ .tags :: dossierTables, name ∉ names)
    (hlanes : LaneRows w.store w'.store) : Effect w w' op :=
  .untouched (.of_confined h hp hnames hlanes.kept) (.inr hlanes)

theorem effect_administration (op : AdministrationOperation) :
    Effect w (transact op.body w).2 (.administration op) := by
  refine effect_transact fun u w' h => ?_
  cases op with
  | getPolicy boardId =>
    obtain ⟨a, h⟩ := runs_discard_iff.mp h
    obtain rfl := h.of_readsOnly (readsOnly_getActivePolicy _)
    exact .of_drew (.refl _)
  | applyPolicy boardId actor document =>
    obtain ⟨a, h⟩ := runs_discard_iff.mp h
    exact effect_confined h (confined_applyPolicy _ _ _) (by decide)
  | createBoard actor raw =>
    obtain ⟨a, h⟩ := runs_discard_iff.mp h
    exact effect_lanes h (confined_createBoard _ _) (by decide) (laneRows_createBoard _ _ _ _ _ h)
  | updateBoard actor boardId raw =>
    obtain ⟨a, h⟩ := runs_discard_iff.mp h
    exact effect_confined h (confined_updateBoard _ _ _) (by decide)
  | removeBoard actor boardId =>
    exact effect_confined h (confined_removeBoard _ _) (by decide)
  | setPreference actor boardId =>
    exact effect_confined h (confined_setPreference _ _) (by decide)
  | saveGroup actor groupId raw =>
    obtain ⟨a, h⟩ := runs_discard_iff.mp h
    exact effect_confined h (confined_saveGroup _ _ _) (by decide)
  | removeGroup actor groupId =>
    exact effect_confined h (confined_removeGroup _ _) (by decide)
  | createLane boardId actor raw =>
    obtain ⟨a, h⟩ := runs_discard_iff.mp h
    exact effect_lanes h (confined_createLane _ _ _) (by decide) (laneRows_createLane _ _ _ _ _ _ h)
  | updateLane boardId actor laneId raw =>
    obtain ⟨a, h⟩ := runs_discard_iff.mp h
    exact effect_lanes h (confined_updateLane _ _ _ _) (by decide)
      (laneRows_updateLane _ _ _ _ _ _ _ h)
  | removeLane boardId actor laneId =>
    exact .untouched (.of_confined h (confined_removeLane _ _ _) (by decide) (lanesKept_removeLane h))
      (.inl trivial)
  | reorderLanes boardId actor raw =>
    obtain ⟨a, h⟩ := runs_discard_iff.mp h
    exact effect_lanes h (confined_reorderLanes _ _ _) (by decide)
      (laneRows_reorderLanes _ _ _ _ _ _ h)
  | createLocation boardId actor raw =>
    obtain ⟨a, h⟩ := runs_discard_iff.mp h
    exact effect_confined h (confined_createLocation _ _ _) (by decide)
  | updateLocation boardId actor locationId raw =>
    obtain ⟨a, h⟩ := runs_discard_iff.mp h
    exact effect_confined h (confined_updateLocation _ _ _ _) (by decide)
  | deleteLocation boardId actor locationId =>
    simp only [AdministrationOperation.body, LocationAdminService.delete, runs_bind_iff] at h
    obtain ⟨_, _, hgranted, hdelete⟩ := h
    obtain rfl := hgranted.of_readsOnly (readsOnly_ensureGranted _ _ _)
    obtain ⟨hfound, hunlocated⟩ := runs_deleteLocation hdelete
    exact .unlocated hgranted hfound hunlocated
  | createUser deps actor raw temp =>
    obtain ⟨a, h⟩ := runs_discard_iff.mp h
    exact effect_confined h (confined_createUser _ _ _ _) (by decide)
  | updateUser deps actor userId raw temp =>
    obtain ⟨a, h⟩ := runs_discard_iff.mp h
    exact effect_confined h (confined_updateUser _ _ _ _ _) (by decide)

/-- Every unit of work of every operation has one of the listed effects. -/
theorem units_chain (w : World Store Tick) (op : Operation) :
    List.IsChain (UnitOfWork w op) (w :: op.units w) := by
  cases op with
  | card op => exact chain_cardUnits op
  | collaboration op => exact List.isChain_pair.mpr ⟨.inl rfl, effect_collaboration op⟩
  | administration op => exact List.isChain_pair.mpr ⟨.inl rfl, effect_administration op⟩

/-- An operation ends with its last unit of work. -/
theorem step_mem_units (w : World Store Tick) (op : Operation) : step w op ∈ op.units w := by
  cases op with
  | card op =>
    cases op <;> simp only [step, Operation.perform, CardOperation.perform, respond,
      Operation.units, CardOperation.units]
    case archiveExpired actor => exact archiveExpired_mem_units actor w
    all_goals exact attempt_mem_attemptUnits _ _ _ _
  | collaboration op => exact List.mem_singleton_self _
  | administration op => exact List.mem_singleton_self _

/-- Any operation but the sweep has its effect on the store it starts from. -/
theorem step_effect {op : Operation} (hop : ∀ actor, op ≠ .card (.archiveExpired actor)) :
    ∃ w₁, w₁.store = w.store ∧ Effect w₁ (step w op) op := by
  obtain ⟨w₁, hstart, heffect⟩ := exists_rel_of_isChain (units_chain w op) (step_mem_units w op)
  rcases hstart with hstore | ⟨actor, rfl⟩
  · exact ⟨w₁, hstore, heffect⟩
  · exact absurd rfl (hop actor)

/-- An accepted creation adds the card it answers with. -/
theorem perform_create {deps : CardServiceDeps} {actor : Actor} {raw : CreateCardInput}
    {options : CreateCardOptions} {card : Card} {w' : World Store Tick}
    (h : (CardService.create deps actor raw options).perform w = (.ok card, w')) :
    ∃ w₁ resolved event, Drew w w₁ ∧ Created deps w₁ w' card resolved event := by
  unfold CardService.create at h
  obtain ⟨w₁, hdrew, hbody⟩ := perform_retry h
  obtain ⟨input, -, hrest⟩ := runs_parse_iff.mp hbody
  obtain ⟨origin, -, hrest⟩ := runs_parse_iff.mp hrest
  obtain ⟨resolved, event, hcreated⟩ := runs_createBody hrest
  exact ⟨w₁, resolved, event, hdrew, hcreated⟩

/-- What every admitted effect keeps, every admitted operation keeps. -/
theorem step_induction {I : World Store Tick → Prop} {P : World Store Tick → Operation → Prop}
    (hstart : ∀ w w₁ op, w₁.store = w.store → P w op → P w₁ op)
    (hsweep : ∀ w w₁ actor, P w (.card (.archiveExpired actor)) → P w₁ (.card (.archiveExpired actor)))
    (hstep : ∀ w w' op, I w → P w op → Effect w w' op → I w') {op : Operation}
    (hw : I w) (hop : P w op) : I (step w op) := by
  refine List.IsChain.cons_induction I _ (units_chain w op) (fun w₁ w₂ hunit h₁ => ?_) hw _
    (step_mem_units w op)
  refine hstep w₁ w₂ op h₁ ?_ hunit.effect
  rcases hunit.start with hstore | ⟨actor, rfl⟩
  · exact hstart w w₁ op hstore hop
  · exact hsweep w w₁ actor hop

/-- An invariant of the admitted effects holds after every admitted run. -/
theorem run_invariant {I : World Store Tick → Prop} {P : World Store Tick → Operation → Prop}
    (hstart : ∀ w w₁ op, w₁.store = w.store → P w op → P w₁ op)
    (hsweep : ∀ w w₁ actor, P w (.card (.archiveExpired actor)) → P w₁ (.card (.archiveExpired actor)))
    (hstep : ∀ w w' op, I w → P w op → Effect w w' op → I w') (ops : List Operation)
    (hw : I w) (hops : RunsUnder P w ops) : I (run w ops) :=
  run_induction (fun _ _ hw hop => step_induction hstart hsweep hstep hw hop) ops w hw hops

end operations

section seeding

/-- The tables the first boot fills. -/
def seedTables : List TableName := [.boards, .users, .lanes, .boardPolicies]

theorem confined_seedSystemUser {names : List TableName} (h : TableName.users ∈ names)
    (now : Instant) : Confined names (seedSystemUser now) := by
  refine confined_reads (Program.readsOnly_read _) fun found => ?_
  cases found with
  | some row => exact confined_pure _
  | none =>
    exact confined_bind confined_newId fun _ =>
      confined_bind (confined_insertRow h) fun _ => confined_pure _

theorem confined_seedPolicy {names : List TableName} (h : TableName.boardPolicies ∈ names)
    (boardId userId : Uuid) (now : Instant) : Confined names (seedPolicy boardId userId now) := by
  refine confined_reads (Program.readsOnly_read _) fun existing => ?_
  split_ifs
  · exact confined_pure _
  · exact confined_bind confined_newId fun _ => confined_insertRow h

theorem confined_seedNewBoard {names : List TableName} (h : TableName.boards ∈ names)
    (now : Instant) : Confined names (seedNewBoard now) :=
  confined_bind confined_newId fun _ => confined_bind (confined_insertRow h) fun _ => confined_pure _

theorem confined_structuralSeed : Confined seedTables structuralSeed := by
  unfold structuralSeed
  refine confined_bind confined_clockNow fun now => ?_
  refine confined_reads (Program.readsOnly_read _) fun existing => ?_
  cases existing with
  | some board =>
    refine confined_bind (confined_pure _) fun board => ?_
    refine confined_bind (confined_seedSystemUser (by decide) _) fun system => ?_
    exact confined_bind (confined_seedPolicy (by decide) _ _ _) fun _ => confined_pure _
  | none =>
    refine confined_bind (confined_seedNewBoard (by decide) _) fun board => ?_
    refine confined_bind (confined_seedSystemUser (by decide) _) fun system => ?_
    refine confined_bind (confined_insertDefaultLanes (by decide) _) fun _ => ?_
    exact confined_bind (confined_seedPolicy (by decide) _ _ _) fun _ => confined_pure _

/-- A seeded database holds no cards, nor anything that hangs on one. -/
theorem freshlySeeded_sameTable (inputs : ℕ → Tick) {name : TableName}
    (hname : name ∉ seedTables) :
    ({} : Store).SameTable name (freshlySeeded inputs).store :=
  transact_sameTable confined_structuralSeed hname _

@[simp] theorem freshlySeeded_cards (inputs : ℕ → Tick) :
    (freshlySeeded inputs).store.cards.rows = [] :=
  congrArg Table.rows (freshlySeeded_sameTable inputs (by decide) :
    ({} : Store).SameTable .cards _)

@[simp] theorem freshlySeeded_cardEvents (inputs : ℕ → Tick) :
    (freshlySeeded inputs).store.cardEvents.rows = [] :=
  congrArg Table.rows (freshlySeeded_sameTable inputs (by decide) :
    ({} : Store).SameTable .cardEvents _)

@[simp] theorem freshlySeeded_cardTags (inputs : ℕ → Tick) :
    (freshlySeeded inputs).store.cardTags.rows = [] :=
  congrArg Table.rows (freshlySeeded_sameTable inputs (by decide) :
    ({} : Store).SameTable .cardTags _)

variable [Platform] {w w' : World Store Tick}

theorem tagsKnown_effect {op : Operation} (hknown : TagsKnown w.store) (h : Effect w w' op) :
    TagsKnown w'.store := by
  have hframe : (∀ name ∈ [TableName.tags, .cardTags], w.store.SameTable name w'.store) →
      TagsKnown w'.store := fun hsame =>
    hknown.of_frame (hsame .cardTags (by simp)) (.of_tags (hsame .tags (by simp)))
  cases h with
  | untouched h => exact hknown.of_frame (h.frame .cardTags (by decide)) h.tags
  | created h => exact h.tags.tagsKnown hknown
  | changed h =>
    obtain ⟨_, htags⟩ := h.change.tagEdit
    exact htags.tagsKnown hknown
  | discarded _ h =>
    intro r hr
    rw [h.cardTags] at hr
    rw [h.tags]
    exact hknown r (Table.mem_remove.mp hr).1
  | alerted h =>
    refine hframe fun name hname => h.frame name ?_
    rintro rfl
    exact absurd hname (by decide)
  | noted h =>
    refine hframe fun name hname => h.frame name ?_
    revert hname
    cases name <;> decide
  | related _ _ h | unrelated _ h =>
    refine hframe fun name hname => h.frame ?_
    rintro rfl
    exact absurd hname (by decide)
  | unlocated _ _ h =>
    refine hframe fun name hname => h.frame name ?_ ?_ <;>
    · rintro rfl
      exact absurd hname (by decide)

/-- Every tag a card names is there in every reachable state. -/
theorem tagsKnown_run (inputs : ℕ → Tick) (ops : List Operation) :
    TagsKnown (run (freshlySeeded inputs) ops).store := by
  refine run_invariant (I := fun w => TagsKnown w.store) (P := fun _ _ => True)
    (fun _ _ _ _ _ => trivial) (fun _ _ _ _ => trivial)
    (fun _ _ _ hw _ heffect => tagsKnown_effect hw heffect) ops ?_ (runsUnder_true ops)
  simp [TagsKnown]

end seeding
end AiKanban.Effects
