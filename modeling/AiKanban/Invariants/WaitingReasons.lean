import AiKanban.Invariants.PolicyVersions
import AiKanban.Invariants.BoardIntegrity
import AiKanban.Invariants.Placement
import AiKanban.Effects.RoleHolders
import AiKanban.Effects.Tables

/-!
# Waiting reasons keep their definitions

A reason that a card or a cancellation names is a key of its board's policy, and stays one
whatever policies and cards become.
-/
namespace AiKanban.Invariants

open Application Db Domain Effects Policy Relational Services Services.CardService Transactions

/-- Every card and every cancellation names reasons from the keys of its board. -/
structure DefinedUnder (keys : Uuid → List WaitingReason) (s : Store) : Prop where
  cards : ∀ card ∈ s.cards.rows, ∀ reason ∈ card.waitingReason, reason ∈ keys card.boardId
  log : ∀ e ∈ s.cardEvents.rows, ∀ payload, e.body.cancellation? = some payload →
    ∀ reason ∈ payload.waitingReason,
      ∃ card ∈ s.cards.rows, card.id = e.cardId ∧ reason ∈ keys card.boardId

/-- Every card and every cancellation names reasons that its board's active policy defines. -/
def ReasonsDefined (s : Store) : Prop := DefinedUnder (reasonKeys s) s

section naming

variable {w w' : World Store Tick}

theorem runs_activePolicy_reasons {boardId : Uuid} {policy : PolicyDocument}
    (h : Runs (activePolicy boardId) w policy w') :
    policy.waitingReasons.map (·.key) = reasonKeys w.store boardId := by
  simp only [activePolicy, PolicyRepository.getActive, runs_bind_iff, runs_read_iff,
    runs_requireFound_iff, runs_pure_iff] at h
  obtain ⟨_, _, ⟨rfl, rfl⟩, own, _, ⟨hown, rfl⟩, global, _, -, rfl, -⟩ := h
  exact (reasonKeys_of_newest hown).symm

theorem runs_ensureActiveWaitingReason {policy : PolicyDocument} {reason : WaitingReason}
    {card : Card} {u : Unit} (h : Runs (ensureActiveWaitingReason policy reason card) w u w') :
    reason ∈ policy.waitingReasons.map (·.key) := by
  obtain ⟨hactive, -⟩ := runs_ensure_iff.mp h
  obtain ⟨choice, hchoice, hkey⟩ := List.any_eq_true.mp hactive
  simp only [Bool.and_eq_true, beq_iff_eq] at hkey
  exact List.mem_map.mpr ⟨choice, hchoice, hkey.1⟩

/-- The rewritten row names the reason it named before, or one of its board's keys. -/
def Named (keys : Uuid → List WaitingReason) (card next : Card) : Prop :=
  ∀ reason ∈ next.waitingReason, reason ∈ card.waitingReason ∨ reason ∈ keys card.boardId

theorem named_of_same {keys : Uuid → List WaitingReason} {card next : Card}
    (h : next.waitingReason = card.waitingReason) : Named keys card next :=
  fun _ hreason => .inl (h ▸ hreason)

/-- Another reason than the card has is checked against the policy. -/
theorem runs_editWaiting_reason {actor : Actor} {card : Card} {policy : PolicyDocument}
    {input : UpdateCardInput} {edit edit' : Edit}
    (h : Runs (editWaiting actor card policy input edit) w edit' w') :
    ∀ reason ∈ input.waitingReason,
      reason ∈ card.waitingReason ∨ reason ∈ policy.waitingReasons.map (·.key) := by
  intro reason hreason
  rw [Option.mem_def] at hreason
  simp only [editWaiting, hreason, Option.isNone_some, Bool.false_and, Bool.false_eq_true, if_false,
    runs_bind_iff, Option.map_some] at h
  obtain ⟨_, _, -, _, _, -, _, _, hedit, -⟩ := h
  simp only [editField, runs_ite_iff, runs_bind_iff] at hedit
  rcases hedit with ⟨hsame, -⟩ | ⟨-, _, _, hguard, -⟩
  · exact .inl hsame.symm
  · exact .inr (runs_ensureActiveWaitingReason hguard)

theorem runs_updateBody_named [Platform] {deps : CardServiceDeps} {actor : Actor} {cardId : ℕ}
    {input : UpdateCardInput} {r : Card} (h : Runs (updateBody deps actor cardId input) w r w') :
    ∃ card, w.store.cards.find? cardId = some card ∧ ∀ reason ∈ input.waitingReason,
      reason ∈ card.waitingReason ∨ reason ∈ reasonKeys w.store card.boardId := by
  simp only [updateBody, editFields, runs_bind_iff, runs_ensureNotArchived_iff,
    runs_decidePolicy_iff, runs_ensureVersion_iff] at h
  obtain ⟨card, _, hcard, _, _, ⟨-, rfl⟩, policy, _, hpolicy, _, _, ⟨-, rfl⟩, _, _, ⟨-, rfl⟩, _, _,
    ⟨_, _, -, _, _, -, _, _, -, _, _, -, _, _, -, _, _, -, _, _, -, hwaiting⟩, -⟩ := h
  obtain ⟨rfl, hfound⟩ := runs_accessibleCard hcard
  refine ⟨card, hfound, ?_⟩
  rw [← runs_activePolicy_reasons hpolicy]
  exact runs_editWaiting_reason hwaiting

/-- An entry into the waiting lane names a reason of the policy. -/
theorem runs_waitingEntry_reason {card : Card} {policy : PolicyDocument} {fromLane toLane : Lane}
    {input : MoveCardInput} {fields : Option WaitingLaneEntry}
    (h : Runs (waitingEntry card policy fromLane toLane input) w fields w') :
    ∀ entry ∈ fields, entry.waitingReason ∈ policy.waitingReasons.map (·.key) := by
  simp only [waitingEntry, runs_ite_iff, runs_bind_iff, runs_pure_iff] at h
  rcases h with ⟨-, entry, _, -, _, _, hactive, rfl, -⟩ | ⟨-, rfl, -⟩
  · intro entry' hentry
    cases hentry
    exact runs_ensureActiveWaitingReason hactive
  · rintro entry ⟨⟩

theorem crossLane_reason [Platform] {card placed : Card} {fromLane toLane : Lane}
    {fields : Option WaitingLaneEntry} {startedAt : Instant} {reason : WaitingReason}
    (h : reason ∈ (crossLane card placed fromLane toLane fields startedAt).waitingReason) :
    reason ∈ placed.waitingReason ∨ ∃ entry ∈ fields, entry.waitingReason = reason := by
  have hleft : (crossLane card placed fromLane toLane fields startedAt).waitingReason =
      if fromLane.key = waitingKey then none
      else (fields.map (·.waitingReason)).orElse fun _ => placed.waitingReason := by
    unfold crossLane
    cases fields <;> split_ifs <;> rfl
  rw [hleft] at h
  by_cases hkey : fromLane.key = waitingKey
  · rw [if_pos hkey] at h
    cases h
  · rw [if_neg hkey] at h
    cases fields with
    | none => exact .inl h
    | some entry => exact .inr ⟨entry, rfl, Option.some.inj h⟩

theorem runs_moveBody_named [Platform] {actor : Actor} {cardId : ℕ} {input : MoveCardInput}
    {r : Card} (h : Runs (moveBody actor cardId input) w r w') :
    ∃ card, w.store.cards.find? cardId = some card ∧ Named (reasonKeys w.store) card r := by
  simp only [moveBody, writeWithEvent, runs_bind_iff, runs_ensureNotArchived_iff,
    runs_laneByKey_iff, runs_decidePolicy_iff, runs_ensureVersion_iff, runs_clockNow_iff,
    runs_pure_iff] at h
  obtain ⟨card, _, hcard, _, _, ⟨-, rfl⟩, fromLane, _, hfrom, toLane, _, ⟨-, rfl⟩, policy,
    _, hpolicy, _, _, ⟨-, rfl⟩, _, _, -, _, _, ⟨-, rfl⟩, fields, _, hfields, position,
    w₀, -, _, _, ⟨rfl, rfl⟩, ⟨updated, body⟩, w₁, hmoved, _, _, -, _, _, -, _, _, -, rfl, -⟩ := h
  obtain ⟨rfl, hfound⟩ := runs_accessibleCard hcard
  obtain ⟨rfl, -⟩ := runs_laneOfCard hfrom
  obtain ⟨-, hcases⟩ := runs_moved hmoved
  refine ⟨card, hfound, fun reason hreason => ?_⟩
  rw [← runs_activePolicy_reasons hpolicy]
  rcases hcases with ⟨-, hresult⟩ | ⟨-, startedAt, exceeded, hresult⟩
  · cases hresult
    exact .inl hreason
  · cases hresult
    rcases crossLane_reason hreason with hkept | ⟨entry, hentry, rfl⟩
    · exact .inl hkept
    · exact .inr (runs_waitingEntry_reason hfields entry hentry)

end naming

section rewriting

variable {w w' : World Store Tick} {s s' : Store} {keys keys' : Uuid → List WaitingReason}

theorem DefinedUnder.mono (h : DefinedUnder keys s)
    (hkeys : ∀ boardId, ∀ reason ∈ keys boardId, reason ∈ keys' boardId) : DefinedUnder keys' s where
  cards := fun card hcard reason hreason => hkeys _ _ (h.cards card hcard reason hreason)
  log := by
    intro e he payload hpayload reason hreason
    obtain ⟨card, hcard, hid, hkey⟩ := h.log e he payload hpayload reason hreason
    exact ⟨card, hcard, hid, hkeys _ _ hkey⟩

/-- What a step has to keep: the rows' reasons, the cards events are about, and the log. -/
theorem DefinedUnder.of_step (h : DefinedUnder keys s)
    (hcards : ∀ card ∈ s'.cards.rows, ∀ reason ∈ card.waitingReason, reason ∈ keys card.boardId)
    (hstay : ∀ e ∈ s'.cardEvents.rows, ∀ card ∈ s.cards.rows, card.id = e.cardId →
      ∃ card' ∈ s'.cards.rows, card'.id = card.id ∧ card'.boardId = card.boardId)
    (hlog : ∀ e ∈ s'.cardEvents.rows, ∀ payload, e.body.cancellation? = some payload →
      e ∈ s.cardEvents.rows ∨ ∃ card ∈ s.cards.rows, card.id = e.cardId ∧
        payload.waitingReason = card.waitingReason) : DefinedUnder keys s' where
  cards := hcards
  log := by
    intro e he payload hpayload reason hreason
    obtain ⟨card, hcard, hid, hkey⟩ :
        ∃ card ∈ s.cards.rows, card.id = e.cardId ∧ reason ∈ keys card.boardId := by
      rcases hlog e he payload hpayload with hold | ⟨card, hcard, hid, hsame⟩
      · exact h.log e hold payload hpayload reason hreason
      · exact ⟨card, hcard, hid, h.cards card hcard reason (hsame ▸ hreason)⟩
    obtain ⟨card', hcard', hid', hboard⟩ := hstay e he card hcard hid
    exact ⟨card', hcard', hid'.trans hid, hboard ▸ hkey⟩

theorem DefinedUnder.of_cards (h : DefinedUnder keys s) (hcards : s'.cards = s.cards)
    (hlog : ∀ e ∈ s'.cardEvents.rows, ∀ payload, e.body.cancellation? = some payload →
      e ∈ s.cardEvents.rows) : DefinedUnder keys s' := by
  refine h.of_step (hcards ▸ h.cards) ?_ fun e he payload hpayload => .inl (hlog e he payload hpayload)
  exact fun e _ card hcard _ => ⟨card, hcards ▸ hcard, rfl, rfl⟩

theorem DefinedUnder.of_tables (h : DefinedUnder keys s) (hcards : s'.cards = s.cards)
    (hlog : s'.cardEvents = s.cardEvents) : DefinedUnder keys s' :=
  h.of_cards hcards fun e he _ _ => by rwa [hlog] at he

theorem boardId_change [Platform] {op : CardOperation} {card next : Card}
    {bodies : List CardEventBody} (h : Change s s' op card next bodies) :
    next.boardId = card.boardId := by
  cases h with
  | @moved _ _ _ _ _ fromLane toLane fields position updatedAt startedAt =>
    obtain ⟨_, _, _, _, _, h⟩ := crossLane_frame card (placedCard card toLane position updatedAt)
      fromLane toLane fields startedAt
    rw [h]
    rfl
  | _ => rfl

/-- The only event that names a reason names the one of its card. -/
theorem cancellation_change [Platform] {op : CardOperation} {card next : Card}
    {bodies : List CardEventBody} (h : Change s s' op card next bodies) :
    ∀ body ∈ bodies, ∀ payload, body.cancellation? = some payload →
      payload.waitingReason = card.waitingReason := by
  intro body hbody payload hpayload
  cases h with
  | cancelled =>
    rw [List.mem_singleton.mp hbody] at hpayload
    cases hpayload
    rfl
  | edited =>
    obtain ⟨change, -, rfl⟩ := List.mem_map.mp hbody
    cases hpayload
  | _ =>
    rw [List.mem_singleton.mp hbody] at hpayload
    cases hpayload

/-- A rewrite to a row whose reason is defined keeps every reason defined. -/
theorem DefinedUnder.changed [Platform] {op : CardOperation} {card next : Card}
    {events : List CardEvent} (h : DefinedUnder keys w.store)
    (hchanged : Changed op w w' card next events) (hnamed : Named keys card next) :
    DefinedUnder keys w'.store := by
  have hrewritten := hchanged.rewritten
  have hcard : card ∈ w.store.cards.rows := Table.mem_of_find? hrewritten.found
  have hboard := boardId_change hchanged.change
  refine h.of_step ?_ ?_ ?_
  · intro c hc reason hreason
    rcases hrewritten.mem_cards hc with rfl | ⟨hold, -⟩
    · rw [hboard]
      rcases hnamed reason hreason with hsame | hkey
      · exact h.cards card hcard reason hsame
      · exact hkey
    · exact h.cards c hold reason hreason
  · intro e _ c hc _
    by_cases hid : c.id = card.id
    · obtain rfl : c = card := Table.eq_of_key hc hcard hid
      exact ⟨next, Table.mem_of_find? hrewritten.find?_self, hrewritten.key, hboard⟩
    · have hfind := (hrewritten.find?_ne hid).trans (Table.find?_of_mem hc)
      exact ⟨c, Table.mem_of_find? hfind, rfl, rfl⟩
  · intro e he payload hpayload
    rcases hrewritten.mem_log.mp he with hold | hnew
    · exact .inl hold
    · refine .inr ⟨card, hcard, (hrewritten.about e hnew).symm, ?_⟩
      exact cancellation_change hchanged.change e.body (List.mem_map_of_mem hnew) payload hpayload

/-- The operations that may give a card another reason. -/
def NamesReason : CardOperation → Prop
  | .update .. => True
  | .move .. => True
  | _ => False

/-- A cancellation that a reopen reads is one of its card. -/
theorem storedCancellation_about {card : Card} {payload : Cancellation}
    (h : storedCancellation s card = some payload) :
    ∃ e ∈ s.cardEvents.rows, e.cardId = card.id ∧ e.body.cancellation? = some payload := by
  unfold storedCancellation at h
  split_ifs at h
  obtain ⟨e, hhead, hpayload⟩ := Option.bind_eq_some_iff.mp h
  have hmem := List.mem_of_head? hhead
  rw [EventRepository.latest, mem_newestFirst, List.mem_filter] at hmem
  simp only [Bool.and_eq_true, beq_iff_eq] at hmem
  exact ⟨e, hmem.1, hmem.2.1, hpayload⟩

/-- The other operations keep a card's reason, clear it, or restore one from its log. -/
theorem named_change [Platform] {op : CardOperation} {card next : Card}
    {bodies : List CardEventBody} (h : Change s s' op card next bodies) (hop : ¬ NamesReason op)
    (hdefined : DefinedUnder keys s) : Named keys card next := by
  cases h with
  | edited | reordered | moved => exact absurd trivial hop
  | cancelled => rintro reason ⟨⟩
  | @reopened _ _ _ _ _ fromLane target position updatedAt _ found =>
    have hcard : card ∈ s.cards.rows := Table.mem_of_find? found
    intro reason hreason
    simp only [reopenedCard] at hreason
    split_ifs at hreason
    · obtain ⟨payload, hpayload, hreason⟩ := Option.bind_eq_some_iff.mp hreason
      obtain ⟨e, he, habout, hbody⟩ := storedCancellation_about hpayload
      obtain ⟨owner, howner, hid, hkey⟩ := hdefined.log e he payload hbody reason hreason
      obtain rfl : owner = card := Table.eq_of_key howner hcard (hid.trans habout)
      exact .inr hkey
    · exact .inl hreason
  | archived | expired | blocked | unblocked => exact named_of_same rfl

/-- An operation that names no reason of its own keeps every reason defined. -/
theorem DefinedUnder.effect [Platform] {op : Operation} (h : DefinedUnder keys w.store)
    (heffect : Effect w w' op) (hop : ∀ cardOp, op = .card cardOp → ¬ NamesReason cardOp) :
    DefinedUnder keys w'.store := by
  cases heffect with
  | untouched huntouched =>
    exact h.of_tables (huntouched.frame .cards (by decide)) (huntouched.frame .cardEvents (by decide))
  | created hcreated =>
    refine h.of_step ?_ ?_ ?_
    · intro c hc reason hreason
      rw [hcreated.cards] at hc
      rcases Table.mem_insert.mp hc with hold | ⟨-, rfl⟩
      · exact h.cards c hold reason hreason
      · obtain ⟨_, _, _, _, _, _, _, -, hrow⟩ := hcreated.row
        rw [hrow] at hreason
        cases hreason
    · intro e _ c hc _
      refine ⟨c, ?_, rfl, rfl⟩
      rw [hcreated.cards]
      exact Table.mem_insert.mpr (.inl hc)
    · intro e he payload hpayload
      rw [hcreated.log] at he
      rcases List.mem_append.mp he with hold | hnew
      · exact .inl hold
      · rw [List.mem_singleton.mp hnew, hcreated.body] at hpayload
        cases hpayload
  | changed hchanged =>
    exact h.changed hchanged (named_change hchanged.change (hop _ rfl) h)
  | discarded _ hdiscarded =>
    refine h.of_step ?_ ?_ ?_
    · intro c hc reason hreason
      rw [hdiscarded.cards] at hc
      exact h.cards c (Table.mem_remove.mp hc).1 reason hreason
    · intro e he c hc hid
      rw [hdiscarded.cardEvents] at he
      refine ⟨c, ?_, rfl, rfl⟩
      rw [hdiscarded.cards]
      refine Table.mem_remove.mpr ⟨hc, ?_⟩
      rw [hid]
      exact (Table.mem_remove.mp he).2
    · intro e he _ _
      rw [hdiscarded.cardEvents] at he
      exact .inl (Table.mem_remove.mp he).1
  | alerted halerted =>
    refine h.of_step ?_ ?_ ?_
    · intro c hc reason hreason
      have hfind : w'.store.cards.find? c.id = some c := Table.find?_of_mem hc
      rcases halerted.cards c.id with hsame | ⟨card, nowIso, hfound, -, -, hmarked⟩
      · rw [hsame] at hfind
        exact h.cards c (Table.mem_of_find? hfind) reason hreason
      · obtain rfl := Option.some.inj (hmarked.symm.trans hfind)
        exact h.cards card (Table.mem_of_find? hfound) reason hreason
    · intro e _ c hc _
      have hfind : w.store.cards.find? c.id = some c := Table.find?_of_mem hc
      rcases halerted.cards c.id with hsame | ⟨card, nowIso, hfound, -, -, hmarked⟩
      · exact ⟨c, Table.mem_of_find? (hsame.trans hfind), rfl, rfl⟩
      · obtain rfl := Option.some.inj (hfound.symm.trans hfind)
        exact ⟨_, Table.mem_of_find? hmarked, rfl, rfl⟩
    · rw [show w'.store.cardEvents = w.store.cardEvents from halerted.frame .cardEvents (by decide)]
      exact fun e he _ _ => .inl he
  | noted hnoted =>
    refine h.of_cards (hnoted.frame .cards (by decide)) fun e he payload hpayload => ?_
    rw [hnoted.log] at he
    rcases List.mem_append.mp he with hold | hnew
    · exact hold
    · rw [List.mem_singleton.mp hnew, cancellation?_of_onThread hnoted.thread] at hpayload
      cases hpayload
  | related _ _ hlinked | unrelated _ hlinked =>
    exact h.of_tables (by rw [hlinked.store]) (by rw [hlinked.store])
  | unlocated _ _ hunlocated =>
    refine h.of_step ?_ ?_ ?_
    · intro c hc reason hreason
      rw [hunlocated.cards] at hc
      obtain ⟨card, hcard, rfl⟩ := List.mem_map.mp hc
      have hkey : reason ∈ card.waitingReason → reason ∈ keys card.boardId :=
        fun hcardReason => h.cards card hcard reason hcardReason
      split_ifs at hreason ⊢ <;> exact hkey hreason
    · intro e _ c hc _
      rw [hunlocated.cards]
      refine ⟨_, List.mem_map.mpr ⟨c, hc, rfl⟩, ?_⟩
      split_ifs <;> exact ⟨rfl, rfl⟩
    · rw [show w'.store.cardEvents = w.store.cardEvents from
        hunlocated.frame .cardEvents (by decide) (by decide)]
      exact fun e he _ _ => .inl he

variable [Platform]

/-- So does every operation of the card service: a reason that an edit or a move names is
checked against the policy. -/
theorem ReasonsDefined.card (h : ReasonsDefined w.store) (op : CardOperation) :
    ReasonsDefined (op.perform w).2.store := by
  have hframe : w.store.SameTable .boardPolicies (op.perform w).2.store :=
    card_sameTable op (by decide)
  have hpolicies : (op.perform w).2.store.boardPolicies = w.store.boardPolicies := hframe
  suffices hsame : DefinedUnder (reasonKeys w.store) (op.perform w).2.store from
    hsame.mono (reasonsKept_of_policies hpolicies)
  by_cases hnames : NamesReason op
  · cases op <;> simp only [CardOperation.perform, respond]
    case update deps actor cardId raw =>
      rw [CardService.update]
      refine store_once h fun w₁ r w' hstore hrun => ?_
      obtain ⟨input, hparse, hrun⟩ := runs_parse_iff.mp hrun
      obtain ⟨card, hfound, hnamed⟩ := runs_updateBody_named hrun
      obtain ⟨card', tagChange, hfound', hactive, hversion, hallowed, htags, hcases⟩ :=
        runs_updateBody hrun
      obtain rfl : card = card' := Option.some.inj (hfound.symm.trans hfound')
      rw [← hstore] at h ⊢
      rcases hcases with ⟨-, -, hframe⟩ | ⟨events, updatedAt, -, hbodies, hsome, hrewritten⟩
      · exact h.of_tables (hframe .cards (by decide)) (hframe .cardEvents (by decide))
      · have hchanged : Changed (.update deps actor cardId raw) w₁ w' card
            (editedCard card input updatedAt) events := by
          refine ⟨?_, hrewritten⟩
          rw [hbodies]
          exact .edited hparse hfound hactive hversion hallowed htags hsome
        refine h.changed hchanged fun reason hreason => ?_
        cases hinput : input.waitingReason with
        | none => exact .inl (by simpa [editedCard, hinput] using hreason)
        | some named =>
          obtain rfl : named = reason := by simpa [editedCard, hinput] using hreason
          exact hnamed named hinput
    case move actor cardId raw =>
      rw [CardService.move]
      refine store_retry h fun w₁ r w' hstore hrun => ?_
      obtain ⟨input, hparse, hrun⟩ := runs_parse_iff.mp hrun
      obtain ⟨card, event, hchanged⟩ := runs_moveBody hparse hrun
      obtain ⟨card', hfound, hnamed⟩ := runs_moveBody_named hrun
      have hfound' : w₁.store.cards.find? cardId = some card := by
        have hchange := hchanged.change
        generalize [event].map (·.body) = bodies at hchange
        cases hchange with
        | reordered _ found => exact found
        | moved _ found => exact found
      obtain rfl : card' = card := Option.some.inj (hfound.symm.trans hfound')
      rw [← hstore] at h ⊢
      exact h.changed hchanged hnamed
    all_goals exact absurd hnames id
  · have hstep : DefinedUnder (reasonKeys w.store) (step w (.card op)).store := by
      refine step_induction (I := fun w₁ => DefinedUnder (reasonKeys w.store) w₁.store)
        (P := fun _ op' => ∀ cardOp, op' = .card cardOp → ¬ NamesReason cardOp)
        (fun _ _ _ _ hop => hop) (fun _ _ _ hop => hop)
        (fun _ _ _ hw hop heffect => hw.effect heffect hop) h fun cardOp heq => ?_
      cases heq
      exact hnames
    exact hstep

end rewriting

section administering

variable {w w' : World Store Tick} {boards : List Uuid}

/-- Policies keep their reasons, and are of boards that are there. -/
def PoliciesKept (w w' : World Store Tick) : Prop :=
  ReasonsKept w.store w'.store ∧ ∃ boards, Housed boards w'.store

theorem policiesKept_of_confined {α : Type} {names : List TableName} {p : Tx α} {a : α}
    (hw : Housed boards w.store) (h : Runs p w a w') (hp : Confined names p)
    (hboards : TableName.boards ∉ names) (hpolicies : TableName.boardPolicies ∉ names) :
    PoliciesKept w w' := by
  have hsame : w'.store.boardPolicies = w.store.boardPolicies := sameTable_of_confined h hp hpolicies
  exact ⟨reasonsKept_of_policies hsame, boards,
    hw.of_tables hsame (sameTable_of_confined h hp hboards)⟩

/-- A policy change with no other in between knew the policies it replaced. -/
theorem policiesKept_apply [Platform] {boardId : Uuid} {actor : Actor} {document : PolicyDocument}
    {r : BoardPolicy} (hw : Housed boards w.store)
    (h : Runs (PolicyService.apply boardId actor document) w r w') : PoliciesKept w w' := by
  rw [apply_eq] at h
  let before := PolicyRepository.newest w.store
  let held : List Write → Uuid → Prop := fun _ _ => True
  let rely : List Write → Store → Prop := fun log v =>
    Quiet log → ∀ id, PolicyRepository.newest v id = before id
  have hread : ∀ id log, Quiet log → Program.Meets rely (VersionWrite held before)
      (ReadForUpdate held before id log) (PolicyRepository.getActive id) log := by
    intro id log hquiet
    refine Program.meets_read fun v hv => ⟨⟨[], by simp, hquiet⟩, fun policy hpolicy => ⟨trivial, ?_⟩⟩
    rw [← hv hquiet id]
    exact Except.ok.inj hpolicy
  have hrely : ∀ log, Program.Permitted (VersionWrite held before) log →
      rely log (replay w.store log) := by
    intro log _ hquiet id
    exact newest_congr (sameTable_replay w.store hquiet) id
  obtain ⟨log, hpermitted, hstore, -⟩ := h.of_meets
    (meets_applyWith (fun _ _ _ hheld => hheld) hread boardId actor document) hrely
  have hlog := versionLog_of_permitted (fun _ _ _ hheld => hheld) hpermitted
  rw [PoliciesKept, hstore]
  refine ⟨reasonsKept_replay hlog fun _ _ => rfl, boards, hw.replay hlog ?_⟩
  intro id current _ hcurrent
  obtain ⟨hmem, rfl⟩ := newest_mem hcurrent
  exact hw.policies current hmem

/-- The policy of a new board is the only one of its board. -/
theorem policiesKept_newBoard {created : Board} {version : BoardPolicy}
    (hw : Housed boards w.store) (haccepts : w.store.boards.accepts created = true)
    (hfresh : w.store.boardPolicies.accepts version = true)
    (hboards : w'.store.boards = w.store.boards.insert created)
    (hpolicies : w'.store.boardPolicies = w.store.boardPolicies.insert version)
    (hid : version.boardId = created.id) : PoliciesKept w w' := by
  constructor
  · intro boardId reason hreason
    rcases newest_insert hfresh hpolicies boardId with ⟨-, hhome⟩ | hold
    · -- no policy names a board that is not there
      have hempty : PolicyRepository.newest w.store boardId = none := by
        by_contra hsome
        obtain ⟨policy, hpolicy⟩ := Option.ne_none_iff_exists'.mp hsome
        obtain ⟨hmem, hboard⟩ := newest_mem hpolicy
        obtain ⟨row, hrow, hrowId⟩ := hw.rows _ (hw.policies policy hmem)
        have hnone := Table.find?_eq_none_iff.mp (Table.find?_of_accepts haccepts) row hrow
        exact hnone (hrowId.trans (hboard.trans (hhome.symm.trans hid)))
      simp [reasonKeys, hempty] at hreason
    · rwa [reasonKeys, hold]
  · refine ⟨created.id :: boards, fun policy hpolicy => ?_, fun id hmem => ?_⟩
    · rw [hpolicies] at hpolicy
      rcases Table.mem_insert.mp hpolicy with hold | ⟨-, rfl⟩
      · exact List.mem_cons_of_mem _ (hw.policies policy hold)
      · rw [hid]
        exact List.mem_cons_self ..
    · rw [hboards]
      rcases List.mem_cons.mp hmem with rfl | hmem
      · exact ⟨created, Table.mem_insert.mpr (.inr ⟨haccepts, rfl⟩), rfl⟩
      · obtain ⟨row, hrow, hrowId⟩ := hw.rows id hmem
        exact ⟨row, Table.mem_insert.mpr (.inl hrow), hrowId⟩

theorem policiesKept_createBoard {actor : Actor} {raw : BoardInput} {board : Board}
    (hw : Housed boards w.store) (h : Runs (BoardService.create actor raw) w board w') :
    PoliciesKept w w' := by
  simp only [BoardService.create, BoardRepository.insert, PolicyRepository.insert, runs_bind_iff,
    runs_ofExcept_iff, runs_newId_iff, runs_clockNow_iff, runs_insertRow_iff, runs_pure_iff,
    table_boards, put_boards, table_boardPolicies, put_boardPolicies] at h
  obtain ⟨input, _, ⟨-, rfl⟩, _, _, hlock, _, w, haccess, id, _, ⟨-, rfl⟩, now, _, ⟨-, rfl⟩, _, _,
    ⟨haccepts, -, rfl⟩, _, w₂, hsaved, _, w₃, hlanes, _, _, ⟨-, rfl⟩, _, _, hglobal, _, w₄,
    ⟨hversion, -, rfl⟩, -, rfl⟩ := h
  obtain rfl := hlock.of_readsOnly (readsOnly_lockAdministration _)
  obtain ⟨rfl, -⟩ := runs_validateAccess haccess
  obtain ⟨rfl, -⟩ := runs_globalPolicy hglobal
  have hsaves : ∀ name, name ≠ .boardDefaults → Store.SameTable name _ w₂.store :=
    frame_of_confined hsaved (confined_saveDefaults (by simp) _ _)
  have hlaneRows : ∀ name, name ≠ .lanes → w₂.store.SameTable name w₃.store :=
    frame_of_confined hlanes (confined_insertDefaultLanes (by simp) _)
  have hboards := Eq.trans (hlaneRows .boards (by decide)) (hsaves .boards (by decide))
  have hpolicies : w₃.store.boardPolicies = w.store.boardPolicies :=
    Eq.trans (hlaneRows .boardPolicies (by decide)) (hsaves .boardPolicies (by decide))
  rw [World.tick_store, hpolicies] at hversion
  refine policiesKept_newBoard hw haccepts hversion hboards ?_ rfl
  exact congrArg (fun t : Table BoardPolicy => t.insert _) hpolicies

theorem exists_boards {t : Table Board} {boards : List Uuid} (board : Board)
    (h : ∀ id ∈ boards, ∃ row ∈ t.rows, row.id = id) :
    ∀ id ∈ boards, ∃ row ∈ (t.update board).rows, row.id = id :=
  fun id hid => exists_update board (h id hid)

theorem policiesKept_updateBoard {actor : Actor} {boardId : Uuid} {raw : BoardInput} {board : Board}
    (hw : Housed boards w.store) (h : Runs (BoardService.update actor boardId raw) w board w') :
    PoliciesKept w w' := by
  simp only [BoardService.update, runs_bind_iff, runs_ofExcept_iff, runs_pure_iff] at h
  obtain ⟨input, _, ⟨-, rfl⟩, _, _, hlock, current, _, haccess, _, w, hvalidate, _, w₁, hrow, _, _,
    hsaved, -, rfl⟩ := h
  obtain rfl := hlock.of_readsOnly (readsOnly_lockAdministration _)
  obtain ⟨rfl, hfound⟩ := runs_requireBoardAccess haccess
  obtain ⟨rfl, -⟩ := runs_validateAccess hvalidate
  generalize hupdated : Board.mk current.id _ _ _ _ _ _ _ _ = updated at hrow
  have hid : updated.id = current.id := by rw [← hupdated]
  obtain rfl := runs_updateBoardRow (Table.mem_of_find? hfound) hid hrow
  have hframe := frame_of_confined hsaved (confined_saveDefaults (List.mem_singleton.mpr rfl) _ _)
  refine ⟨reasonsKept_of_policies (hframe .boardPolicies (by decide)), boards, ?_⟩
  refine Housed.of_tables (s := { w.store with boards := w.store.boards.update updated })
    ⟨hw.policies, exists_boards _ hw.rows⟩ (hframe .boardPolicies (by decide))
    (hframe .boards (by decide))

theorem policiesKept_removeBoard {actor : Actor} {boardId : Uuid} {u : Unit}
    (hw : Housed boards w.store) (h : Runs (BoardService.remove actor boardId) w u w') :
    PoliciesKept w w' := by
  simp only [BoardService.remove, BoardRepository.list, runs_bind_iff, runs_read_iff,
    runs_ensure_iff, runs_clockNow_iff] at h
  obtain ⟨_, _, hlock, current, _, haccess, _, _, ⟨rfl, rfl⟩, _, w, ⟨-, rfl⟩, now, _,
    ⟨-, rfl⟩, hrow⟩ := h
  obtain rfl := hlock.of_readsOnly (readsOnly_lockAdministration _)
  obtain ⟨rfl, hfound⟩ := runs_requireBoardAccess haccess
  generalize hremoved : Board.mk current.id _ _ _ _ _ _ _ _ = removed at hrow
  have hid : removed.id = current.id := by rw [← hremoved]
  obtain rfl := runs_updateBoardRow (w := w.tick) (Table.mem_of_find? hfound) hid hrow
  exact ⟨reasonsKept_of_policies rfl, boards, hw.policies, exists_boards _ hw.rows⟩

/-- A freshly seeded database has one board and its policy. -/
theorem housed_seeded (inputs : ℕ → Tick) : ∃ boards, Housed boards (freshlySeeded inputs).store := by
  unfold freshlySeeded
  rcases ht : transact structuralSeed ⟨{}, inputs, 0⟩ with ⟨e | seed, w⟩
  · have hstore : w.store = {} := transact_error ht
    refine ⟨[], ?_, by simp⟩
    rw [hstore]
    exact fun policy hpolicy => absurd hpolicy List.not_mem_nil
  have hrun := transact_ok_iff.mp ht
  have hframe : ∀ {α : Type} {names : List TableName} {p : Tx α} {a : α} {v v' : World Store Tick},
      Runs p v a v' → Confined names p → ∀ name, name ∉ names → v.store.SameTable name v'.store :=
    fun hp hc _ hn => sameTable_of_confined hp hc hn
  simp only [structuralSeed, runs_bind_iff, runs_clockNow_iff] at hrun
  obtain ⟨now, _, ⟨-, rfl⟩, existing, _, hexisting, hrun⟩ := hrun
  obtain ⟨hnone, rfl⟩ := runs_read_iff.mp hexisting
  obtain rfl : existing = none := hnone
  simp only [seedNewBoard, BoardRepository.insert, Option.isNone_none, if_true, runs_bind_iff,
    runs_newId_iff, runs_insertRow_iff, runs_pure_iff, table_boards, put_boards] at hrun
  obtain ⟨board, w₁, ⟨id, _, ⟨-, rfl⟩, _, _, ⟨haccepts, -, rfl⟩, rfl, rfl⟩, system, w₂, hsystem, _,
    w₃, hlanes, _, w₄, hpolicy, -, rfl⟩ := hrun
  have hsystemRows := hframe hsystem (confined_seedSystemUser (List.mem_singleton.mpr rfl) _)
  have hlaneRows := hframe hlanes (confined_insertDefaultLanes (List.mem_singleton.mpr rfl) _)
  have hpolicyRows := hframe hpolicy (confined_seedPolicy (List.mem_singleton.mpr rfl) ..)
  have hboards := Eq.trans (hpolicyRows .boards (by decide)) <|
    Eq.trans (hlaneRows .boards (by decide)) (hsystemRows .boards (by decide))
  have hpolicies : w₃.store.boardPolicies.rows = [] :=
    congrArg Table.rows (Eq.trans (hlaneRows .boardPolicies (by decide))
      (hsystemRows .boardPolicies (by decide)))
  refine ⟨[id], ?_, ?_⟩
  · simp only [seedPolicy, PolicyRepository.insert, runs_bind_iff, runs_read_iff, runs_ite_iff,
      runs_newId_iff, runs_insertRow_iff, runs_pure_iff, put_boardPolicies, table_boardPolicies]
      at hpolicy
    obtain ⟨_, _, ⟨rfl, rfl⟩, ⟨-, -, rfl⟩ | ⟨-, _, _, ⟨-, rfl⟩, -, -, rfl⟩⟩ := hpolicy
    · rw [hpolicies]
      exact fun policy hmem => absurd hmem List.not_mem_nil
    · intro policy hmem
      rcases Table.mem_insert.mp hmem with hold | ⟨-, rfl⟩
      · exact absurd (hpolicies ▸ hold) List.not_mem_nil
      · exact List.mem_singleton_self _
  · intro id' hid
    rw [List.mem_singleton.mp hid, hboards]
    exact ⟨_, Table.mem_insert.mpr (.inr ⟨haccepts, rfl⟩), rfl⟩

/-- What the policies and the cards of a reachable database share. -/
def Reasoned (w : World Store Tick) : Prop :=
  ReasonsDefined w.store ∧ ∃ boards, Housed boards w.store

theorem Reasoned.of_kept (h : DefinedUnder (reasonKeys w.store) w'.store) (hkept : PoliciesKept w w') :
    Reasoned w' :=
  ⟨h.mono hkept.1, hkept.2⟩

variable [Platform]

theorem policiesKept_administration {op : AdministrationOperation} {u : Unit}
    (hw : Housed boards w.store) (h : Runs op.body w u w') : PoliciesKept w w' := by
  cases op with
  | getPolicy boardId =>
    obtain ⟨_, h⟩ := runs_discard_iff.mp h
    rw [h.of_readsOnly (readsOnly_getActivePolicy _)]
    exact ⟨.refl _, boards, hw⟩
  | applyPolicy boardId actor document =>
    obtain ⟨_, h⟩ := runs_discard_iff.mp h
    exact policiesKept_apply hw h
  | createBoard actor raw =>
    obtain ⟨_, h⟩ := runs_discard_iff.mp h
    exact policiesKept_createBoard hw h
  | updateBoard actor boardId raw =>
    obtain ⟨_, h⟩ := runs_discard_iff.mp h
    exact policiesKept_updateBoard hw h
  | removeBoard actor boardId => exact policiesKept_removeBoard hw h
  | setPreference actor boardId =>
    exact policiesKept_of_confined hw h (confined_setPreference ..) (by decide) (by decide)
  | saveGroup actor groupId raw =>
    obtain ⟨_, h⟩ := runs_discard_iff.mp h
    exact policiesKept_of_confined hw h (confined_saveGroup ..) (by decide) (by decide)
  | removeGroup actor groupId =>
    exact policiesKept_of_confined hw h (confined_removeGroup ..) (by decide) (by decide)
  | createLane boardId actor raw =>
    obtain ⟨_, h⟩ := runs_discard_iff.mp h
    exact policiesKept_of_confined hw h (confined_createLane ..) (by decide) (by decide)
  | updateLane boardId actor laneId raw =>
    obtain ⟨_, h⟩ := runs_discard_iff.mp h
    exact policiesKept_of_confined hw h (confined_updateLane ..) (by decide) (by decide)
  | removeLane boardId actor laneId =>
    exact policiesKept_of_confined hw h (confined_removeLane ..) (by decide) (by decide)
  | reorderLanes boardId actor raw =>
    obtain ⟨_, h⟩ := runs_discard_iff.mp h
    exact policiesKept_of_confined hw h (confined_reorderLanes ..) (by decide) (by decide)
  | createLocation boardId actor raw =>
    obtain ⟨_, h⟩ := runs_discard_iff.mp h
    exact policiesKept_of_confined hw h (confined_createLocation ..) (by decide) (by decide)
  | updateLocation boardId actor locationId raw =>
    obtain ⟨_, h⟩ := runs_discard_iff.mp h
    exact policiesKept_of_confined hw h (confined_updateLocation ..) (by decide) (by decide)
  | deleteLocation boardId actor locationId =>
    exact policiesKept_of_confined hw h (confined_deleteLocation ..) (by decide) (by decide)
  | createUser deps actor raw temp =>
    obtain ⟨_, h⟩ := runs_discard_iff.mp h
    exact policiesKept_of_confined hw h (confined_createUser ..) (by decide) (by decide)
  | updateUser deps actor userId raw temp =>
    obtain ⟨_, h⟩ := runs_discard_iff.mp h
    exact policiesKept_of_confined hw h (confined_updateUser ..) (by decide) (by decide)

theorem Reasoned.card (h : Reasoned w) (op : CardOperation) : Reasoned (op.perform w).2 := by
  obtain ⟨hdefined, boards, hhoused⟩ := h
  have hframe : ∀ name, name ∉ cardTables → w.store.SameTable name (op.perform w).2.store :=
    fun name hname => card_sameTable op hname
  exact ⟨hdefined.card op, boards,
    hhoused.of_tables (hframe .boardPolicies (by decide)) (hframe .boards (by decide))⟩

theorem Reasoned.step (h : Reasoned w) (op : Operation) : Reasoned (step w op) := by
  obtain ⟨hdefined, boards, hhoused⟩ := h
  cases op with
  | card op => exact Reasoned.card ⟨hdefined, boards, hhoused⟩ op
  | collaboration op =>
    have hframe : ∀ name, name ∉ cardTables → w.store.SameTable name (transact op.body w).2.store :=
      fun name hname => collaboration_sameTable op hname
    refine .of_kept (hdefined.effect (effect_collaboration op) fun _ heq => by cases heq) ?_
    exact ⟨reasonsKept_of_policies (hframe .boardPolicies (by decide)), boards,
      hhoused.of_tables (hframe .boardPolicies (by decide)) (hframe .boards (by decide))⟩
  | administration op =>
    refine .of_kept (hdefined.effect (effect_administration op) fun _ heq => by cases heq) ?_
    change PoliciesKept w (transact op.body w).2
    rcases ht : transact op.body w with ⟨e | u, w'⟩
    · have hstore : w'.store = w.store := transact_error ht
      rw [PoliciesKept, hstore]
      exact ⟨.refl _, boards, hhoused⟩
    · exact policiesKept_administration hhoused (transact_ok_iff.mp ht)

/-- Reasons stay defined after every run. -/
theorem reasoned_run (inputs : ℕ → Tick) (ops : List Operation) :
    Reasoned (run (freshlySeeded inputs) ops) := by
  refine run_induction (I := Reasoned) (P := fun _ _ => True) (fun _ op h _ => h.step op) ops _ ?_
    (runsUnder_true ops)
  exact ⟨⟨by simp, by simp⟩, housed_seeded inputs⟩

end administering

end AiKanban.Invariants
