import AiKanban.Effects.Steps

/-!
# Tables the card services leave alone

A card is written together with what hangs on it. Boards, lanes, policies, accounts and
credentials are never written on behalf of a card.
-/
namespace AiKanban.Effects

open Domain Db Policy Relational Services Server Transactions
open Application

/-- The tables that operations on cards write. -/
def cardTables : List TableName :=
  [.cards, .cardEvents, .cardWatchers, .tags, .cardTags, .comments, .attachments, .cardRelations,
    .notifications]

variable {w w' : World Store Tick} {name : TableName}

theorem not_mem_rewriteTables (hname : name ∉ cardTables) : name ∉ rewriteTables := by
  revert hname
  cases name <;> decide

theorem not_mem_threadTables (hname : name ∉ cardTables) : name ∉ threadTables := by
  revert hname
  cases name <;> decide

theorem ne_cards_of_not_mem (hname : name ∉ cardTables) : name ≠ .cards := by
  revert hname
  cases name <;> decide

theorem sameTable_relations (hname : name ∉ cardTables) (s : Store) (relations : Table CardRelation) :
    s.SameTable name { s with cardRelations := relations } := by
  revert hname
  cases name <;> first | exact fun _ => rfl | exact fun h => absurd (by decide) h

/-- A unit of work whose accepted runs leave a table alone leaves it alone. -/
theorem sameTable_transact {α : Type} {p : Tx α}
    (hok : ∀ a w', Runs p w a w' → w.store.SameTable name w'.store) :
    w.store.SameTable name (transact p w).2.store := by
  rcases ht : transact p w with ⟨e | a, w'⟩
  · exact sameTable_of_store (transact_error ht)
  · exact hok a w' (transact_ok_iff.mp ht)

/-- What the accepted runs of every attempt make of the store, the operation makes of it. -/
theorem store_attempts {α : Type} {attempts : Attempts α} {I : Store → Prop} (hw : I w.store)
    (hok : ∀ q ∈ attempts.first :: attempts.rest, ∀ w₁ a w', w₁.store = w.store → Runs q w₁ a w' →
      I w'.store) : I (attempts.perform w).2.store := by
  rcases attempt_cases (Prod.eta (attempts.perform w)).symm with
    ⟨e, -, hstore, -⟩ | ⟨q, hq, a, w₁, -, hstore, -, -, hrun⟩
  · rwa [hstore]
  · exact hok q hq w₁ a _ hstore hrun

theorem store_retry {α : Type} {body : Tx α} {currentCard : Tx (Option Card)} {I : Store → Prop}
    (hw : I w.store) (hok : ∀ w₁ a w', w₁.store = w.store → Runs body w₁ a w' → I w'.store) :
    I ((runWithPositionRetry body currentCard).perform w).2.store := by
  refine store_attempts hw fun q hq w₁ a w' hstore h => ?_
  rcases List.mem_cons.mp hq with rfl | hq
  · exact hok w₁ a w' hstore h
  rcases List.mem_cons.mp hq with rfl | hq
  · exact hok w₁ a w' hstore h
  · rw [List.mem_singleton.mp hq] at h
    obtain ⟨_, _, -, hthrow⟩ := runs_bind_iff.mp h
    exact absurd hthrow not_runs_throw

theorem store_once {α : Type} {body : Tx α} {I : Store → Prop} (hw : I w.store)
    (hok : ∀ w₁ a w', w₁.store = w.store → Runs body w₁ a w' → I w'.store) :
    I ((Attempts.mk body []).perform w).2.store := by
  refine store_attempts hw fun q hq => ?_
  rw [List.mem_singleton.mp hq]
  exact hok

theorem confined_writeWithEvent {names : List TableName} (hcards : TableName.cards ∈ names)
    (hevents : TableName.cardEvents ∈ names) (actor : Actor) (card updated : Card)
    (body : CardEventBody) :
    Confined names (CardService.writeWithEvent actor card updated body) :=
  confined_bind ⟨writes_updateRow hcards⟩ fun _ =>
    confined_bind (confined_makeEvent _ _ _) fun _ =>
      confined_bind (confined_insertRow hevents) fun _ => confined_pure _

theorem confined_archiveExpiredBody (actor : Actor) (cutoffIso : Instant) (candidate : Card) :
    Confined [.cards, .cardEvents] (CardService.archiveExpiredBody actor cutoffIso candidate) := by
  refine confined_reads (Program.readsOnly_read _) fun found => ?_
  cases found with
  | none => exact confined_pure _
  | some card =>
    dsimp only
    split_ifs with hmoved
    · exact confined_pure _
    refine confined_reads (Program.readsOnly_read _) fun board => ?_
    split_ifs with hboard
    · exact confined_pure _
    refine confined_reads (readsOnly_requireBoardAccess _ _) fun _ => ?_
    refine confined_reads (readsOnly_enteredDoneAt _) fun enteredAt => ?_
    split_ifs with hlate
    · exact confined_pure _
    · refine confined_bind ?_ fun _ => confined_pure _
      exact confined_bind confined_clockNow fun _ =>
        confined_writeWithEvent (by simp) (by simp) _ _ _ _

/-- The sweep writes archived rows and their events. -/
theorem sameTable_archiveEach (hname : name ∉ cardTables) (actor : Actor) (cutoffIso : Instant)
    (candidates : List Card) (archived : ℕ) :
    w.store.SameTable name (CardService.archiveEach actor cutoffIso candidates archived w).2.store := by
  have hconfined : name ∉ [TableName.cards, .cardEvents] := by
    revert hname
    cases name <;> decide
  induction candidates generalizing archived w with
  | nil => exact .refl _ _
  | cons candidate candidates ih =>
    have hfirst := transact_sameTable (confined_archiveExpiredBody actor cutoffIso candidate)
      hconfined w
    rw [CardService.archiveEach]
    rcases ht : transact (CardService.archiveExpiredBody actor cutoffIso candidate) w with ⟨e | r, w₁⟩
    · rwa [ht] at hfirst
    · rw [ht] at hfirst
      exact hfirst.trans (ih _)

theorem sameTable_archiveExpired (hname : name ∉ cardTables) (actor : Actor) :
    w.store.SameTable name (CardService.archiveExpired actor w).2.store := by
  have hreads : w.store.SameTable name (transact CardService.expiredCandidates w).2.store := by
    apply sameTable_transact
    rintro ⟨now, candidates⟩ w' h
    simp only [CardService.expiredCandidates, runs_bind_iff, runs_clockNow_iff, runs_pure_iff] at h
    obtain ⟨_, _, ⟨rfl, rfl⟩, found, w₁, hfound, -, rfl⟩ := h
    obtain ⟨rfl, -⟩ := runs_expiryCandidates hfound
    exact .refl _ _
  rw [CardService.archiveExpired]
  rcases ht : transact CardService.expiredCandidates w with ⟨e | ⟨now, candidates⟩, w₁⟩
  · rwa [ht] at hreads
  · rw [ht] at hreads
    exact hreads.trans (sameTable_archiveEach hname _ _ _ _)

theorem runs_deleteBody_sameTable {actor : Actor} {cardId expectedVersion : ℕ} {keys : List Uuid}
    (hname : name ∉ cardTables)
    (h : Runs (CardService.deleteBody actor cardId expectedVersion) w keys w') :
    w.store.SameTable name w'.store := by
  simp only [CardService.deleteBody, runs_bind_iff] at h
  obtain ⟨card, _, hchecks, hdelete⟩ := h
  obtain rfl := hchecks.of_readsOnly (readsOnly_deleteChecks _ _ _)
  obtain ⟨-, -, rfl⟩ := runs_hardDelete_iff.mp hdelete
  revert hname
  cases name <;> first | exact fun _ => rfl | exact fun h => absurd (by decide) h

/-- An operation on what hangs on a card leaves every other table alone. -/
theorem collaboration_sameTable (op : CollaborationOperation) (hname : name ∉ cardTables) :
    w.store.SameTable name (transact op.body w).2.store := by
  have hthread := not_mem_threadTables hname
  have hread : ∀ {α : Type} {p : Tx α} {w' : World Store Tick} {u : Unit}, p.ReadsOnly →
      Runs (discard p) w u w' → w.store.SameTable name w'.store := by
    intro α p w' u hp h
    obtain ⟨a, h⟩ := runs_discard_iff.mp h
    rw [h.of_readsOnly hp]
    exact .refl _ _
  refine sameTable_transact fun u w' h => ?_
  cases op with
  | addComment actor cardId raw author =>
    obtain ⟨r, h⟩ := runs_discard_iff.mp h
    obtain ⟨event, hnoted⟩ := runs_addComment h
    exact hnoted.frame name hthread
  | editComment actor commentId raw =>
    obtain ⟨r, h⟩ := runs_discard_iff.mp h
    obtain ⟨cardId, event, hnoted⟩ := runs_editComment h
    exact hnoted.frame name hthread
  | softDeleteComment actor commentId =>
    obtain ⟨r, h⟩ := runs_discard_iff.mp h
    obtain ⟨cardId, event, hnoted⟩ := runs_softDeleteComment h
    exact hnoted.frame name hthread
  | listComments actor cardId => exact hread (readsOnly_listForCard _ _) h
  | addAttachment actor cardId raw =>
    obtain ⟨r, h⟩ := runs_discard_iff.mp h
    obtain ⟨event, hnoted⟩ := runs_addAttachment h
    exact hnoted.frame name hthread
  | getAttachment actor attachmentId => exact hread (readsOnly_getActive _ _) h
  | removeAttachment actor attachmentId =>
    obtain ⟨r, h⟩ := runs_discard_iff.mp h
    obtain ⟨cardId, event, hnoted⟩ := runs_removeAttachment h
    exact hnoted.frame name hthread
  | createRelation actor cardId raw =>
    obtain ⟨r, h⟩ := runs_discard_iff.mp h
    obtain ⟨checked, -, -, -, rfl⟩ := runs_createRelation_iff.mp h
    exact sameTable_relations hname w.store _
  | deleteRelation actor cardId relationId =>
    obtain ⟨-, rfl⟩ := runs_deleteRelation_iff.mp h
    exact sameTable_relations hname w.store _
  | listRelations actor cardId => exact hread (readsOnly_listRelations _ _) h

variable [Platform]

/-- So does an operation of the card service. -/
theorem card_sameTable (op : CardOperation) (hname : name ∉ cardTables) :
    w.store.SameTable name (op.perform w).2.store := by
  have hrewrite := not_mem_rewriteTables hname
  cases op <;> simp only [CardOperation.perform, respond]
  case create deps actor raw options =>
    rw [CardService.create]
    refine store_retry (.refl name _) fun w₁ r w' hstore h => ?_
    rw [← hstore]
    obtain ⟨input, -, h⟩ := runs_parse_iff.mp h
    obtain ⟨origin, -, h⟩ := runs_parse_iff.mp h
    obtain ⟨resolved, event, hcreated⟩ := runs_createBody h
    exact hcreated.frame name hrewrite
  case update deps actor cardId raw =>
    rw [CardService.update]
    refine store_once (.refl name _) fun w₁ r w' hstore h => ?_
    rw [← hstore]
    obtain ⟨input, hparse, h⟩ := runs_parse_iff.mp h
    obtain ⟨card, tagChange, -, -, -, -, -, hcases⟩ := runs_updateBody h
    rcases hcases with ⟨-, -, hframe⟩ | ⟨events, updatedAt, -, -, -, hrewritten⟩
    · exact hframe name fun hmem => hrewrite (draftTables_sub hmem)
    · exact hrewritten.frame name hrewrite
  case move actor cardId raw =>
    rw [CardService.move]
    refine store_retry (.refl name _) fun w₁ r w' hstore h => ?_
    rw [← hstore]
    obtain ⟨input, hparse, h⟩ := runs_parse_iff.mp h
    obtain ⟨card, event, hchanged⟩ := runs_moveBody hparse h
    exact hchanged.rewritten.frame name hrewrite
  case cancel actor cardId raw =>
    rw [CardService.cancel]
    refine store_retry (.refl name _) fun w₁ r w' hstore h => ?_
    rw [← hstore]
    obtain ⟨input, hparse, h⟩ := runs_parse_iff.mp h
    obtain ⟨card, event, hchanged⟩ := runs_cancelBody hparse h
    exact hchanged.rewritten.frame name hrewrite
  case reopen actor cardId raw =>
    rw [CardService.reopen]
    refine store_retry (.refl name _) fun w₁ r w' hstore h => ?_
    rw [← hstore]
    obtain ⟨input, hparse, h⟩ := runs_parse_iff.mp h
    obtain ⟨card, event, hchanged⟩ := runs_reopenBody hparse h
    exact hchanged.rewritten.frame name hrewrite
  case archive actor cardId raw =>
    rw [CardService.archive]
    refine store_once (.refl name _) fun w₁ r w' hstore h => ?_
    rw [← hstore]
    obtain ⟨input, hparse, h⟩ := runs_parse_iff.mp h
    obtain ⟨card, event, hchanged⟩ := runs_archiveBody hparse h
    exact hchanged.rewritten.frame name hrewrite
  case block actor cardId raw =>
    rw [CardService.block]
    refine store_once (.refl name _) fun w₁ r w' hstore h => ?_
    rw [← hstore]
    obtain ⟨input, hparse, h⟩ := runs_parse_iff.mp h
    obtain ⟨card, event, nowIso, rfl, -, -, -, -, -, hrewritten, -⟩ := runs_setBlockedFlagBody h
    exact hrewritten.frame name hrewrite
  case unblock actor cardId raw =>
    rw [CardService.unblock]
    refine store_once (.refl name _) fun w₁ r w' hstore h => ?_
    rw [← hstore]
    obtain ⟨input, hparse, h⟩ := runs_parse_iff.mp h
    obtain ⟨card, event, nowIso, rfl, -, -, -, -, -, hrewritten, -⟩ := runs_setBlockedFlagBody h
    exact hrewritten.frame name hrewrite
  case delete actor cardId expectedVersion =>
    rw [CardService.delete]
    refine store_once (.refl name _) fun w₁ keys w' hstore h => ?_
    rw [← hstore]
    exact runs_deleteBody_sameTable hname h
  case archiveExpired actor => exact sameTable_archiveExpired hname actor
  case claimOverdueWaitingAlerts deps =>
    rw [CardService.claimOverdueWaitingAlerts]
    refine store_once (.refl name _) fun w₁ alerts w' hstore h => ?_
    rw [← hstore]
    obtain ⟨now, _, hnow, h⟩ := runs_bind_iff.mp h
    obtain ⟨-, rfl⟩ := runs_clockNow_iff.mp hnow
    exact (runs_claimOverdueBody h).frame name (ne_cards_of_not_mem hname)

end AiKanban.Effects
