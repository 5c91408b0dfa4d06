import AiKanban.Invariants.Dossier

/-!
# Archived cards

An archived card is frozen by a check that each write makes for itself. The creation and
the deletion of a relation and the discard of a card make no such check.
-/
namespace AiKanban.Invariants

open Domain Db Relational Services Transactions Effects
open Application

/-- The operations of the card, comment, attachment and relation services but `reopen`. -/
def ActsOnCards : Operation → Prop
  | .card (.reopen ..) => False
  | .card _ => True
  | .collaboration _ => True
  | .administration _ => False

/-- An unchecked write that would be accepted is not about the card. -/
def SparesDossier (cardId : ℕ) (w : World Store Tick) : Operation → Prop
  | .card (.delete actor deletedId expectedVersion) =>
      ∀ card, Runs (CardService.deleteChecks actor deletedId expectedVersion) w card w →
        deletedId ≠ cardId ∧
          ∀ r ∈ relationsOf w.store cardId, r.fromCardId ≠ deletedId ∧ r.toCardId ≠ deletedId
  | .collaboration (.createRelation actor fromCardId raw) =>
      ∀ checked, Runs (CardRelationService.createChecks actor fromCardId raw) w checked w →
        w.store.cardRelations.accepts (linkRow w checked) = true →
        checked.2.1.id ≠ cardId ∧ checked.2.2.id ≠ cardId
  | .collaboration (.deleteRelation actor ofCardId relationId) =>
      ∀ relation, Runs (CardRelationService.deleteChecks actor ofCardId relationId) w relation w →
        relation.fromCardId ≠ cardId ∧ relation.toCardId ≠ cardId
  | _ => True

variable {w w' : World Store Tick} {cardId : ℕ}

section relations

theorem relationsOf_insert {checked : RelationType × Card × Card}
    (haccepts : w.store.cardRelations.accepts (linkRow w checked) = true)
    (h : Linked w w' (w.store.cardRelations.insert (linkRow w checked))) :
    relationsOf w'.store cardId = relationsOf w.store cardId ↔
      checked.2.1.id ≠ cardId ∧ checked.2.2.id ≠ cardId := by
  unfold relationsOf
  rw [h.store, Table.rows_insert haccepts, List.filter_append]
  simp [linkRow]

/-- Deleting a stored relation shortens the lists of its two ends. -/
theorem relationsOf_remove {relation : CardRelation}
    (hfound : relation ∈ w.store.cardRelations.rows)
    (h : Linked w w' (w.store.cardRelations.remove fun r => r.id == relation.id)) :
    relationsOf w'.store cardId = relationsOf w.store cardId ↔
      relation.fromCardId ≠ cardId ∧ relation.toCardId ≠ cardId := by
  have hrows : w'.store.cardRelations.rows =
      w.store.cardRelations.rows.filter fun r => !(r.id == relation.id) := by
    rw [h.store]
    rfl
  constructor
  · intro heq
    by_contra hends
    have hmem : relation ∈ relationsOf w.store cardId := by
      refine List.mem_filter.mpr ⟨hfound, ?_⟩
      simp only [Bool.or_eq_true, beq_iff_eq]
      tauto
    rw [← heq, relationsOf, hrows, List.filter_filter] at hmem
    simp at hmem
  · intro hends
    unfold relationsOf
    rw [hrows, List.filter_filter]
    refine List.filter_congr fun r hr => ?_
    by_cases hid : r.id = relation.id
    · have heq : r = relation := Table.eq_of_key hr hfound hid
      simp [heq, hends]
    · simp [hid]

/-- A discard keeps the relations of the cards that had none with the discarded one. -/
theorem relationsOf_discarded {deletedId : ℕ} (h : Discarded w w' deletedId) :
    relationsOf w'.store cardId = relationsOf w.store cardId ↔
      ∀ r ∈ relationsOf w.store cardId, r.fromCardId ≠ deletedId ∧ r.toCardId ≠ deletedId := by
  have hrows : relationsOf w'.store cardId = (relationsOf w.store cardId).filter fun r =>
      !(r.fromCardId == deletedId || r.toCardId == deletedId) := by
    unfold relationsOf
    rw [h.cardRelations]
    change List.filter _ (List.filter _ _) = List.filter _ (List.filter _ _)
    rw [List.filter_comm]
  rw [hrows, List.filter_eq_self]
  simp

end relations

theorem SparesDossier.of_store {w₁ : World Store Tick} {op : CardOperation}
    (hstore : w₁.store = w.store) (h : SparesDossier cardId w (.card op)) :
    SparesDossier cardId w₁ (.card op) := by
  cases op with
  | delete actor deletedId expectedVersion =>
    intro card hchecks
    rw [hstore]
    exact h card (hchecks.of_store (readsOnly_deleteChecks _ _ _) hstore.symm)
  | _ => trivial

section frozen

variable [Platform]

/-- A rewrite of a card other than by `reopen` is of an active card. -/
theorem active_of_change {s s' : Store} {op : CardOperation} {card next : Card}
    {bodies : List CardEventBody} (hop : ActsOnCards (.card op))
    (h : Change s s' op card next bodies) : card.archivedAt = none := by
  cases h with
  | edited _ _ hactive => exact hactive
  | reordered _ _ hactive => exact hactive
  | moved _ _ hactive => exact hactive
  | cancelled _ _ hactive => exact hactive
  | reopened => exact hop.elim
  | archived _ _ hactive => exact hactive
  | expired _ hactive => exact hactive
  | blocked _ _ hactive => exact hactive
  | unblocked _ _ hactive => exact hactive

/-- One unit of work leaves the dossier of an archived card alone, unless it is one of the
unchecked writes. -/
theorem dossier_effect {op : Operation} {card : Card} (hknown : TagsKnown w.store)
    (hfound : w.store.cards.find? cardId = some card) (harchived : card.archivedAt ≠ none)
    (hacts : ActsOnCards op) (hspares : SparesDossier cardId w op) (h : Effect w w' op) :
    dossier w'.store cardId = dossier w.store cardId := by
  have hne : ∀ {id : ℕ} {other : Card}, w.store.cards.find? id = some other →
      other.archivedAt = none → cardId ≠ id := by
    rintro id other hother hactive rfl
    rw [hfound] at hother
    cases hother
    exact harchived hactive
  cases h with
  | untouched h => exact dossier_untouched hknown h
  | @created _ _ _ _ created _ _ h =>
    refine dossier_created hknown h fun hid => ?_
    have hnone : w.store.cards.find? created.id = none := Table.find?_of_accepts h.accepted
    rw [← hid, hfound] at hnone
    cases hnone
  | changed h => exact dossier_changed hknown h (hne h.rewritten.found (active_of_change hacts h.change))
  | discarded checks h =>
    obtain ⟨hid, hrelations⟩ := hspares _ checks
    exact dossier_discarded h hid.symm ((relationsOf_discarded h).mpr hrelations)
  | alerted h =>
    refine dossier_alerted hknown h ?_
    rcases h.cards cardId with hsame | ⟨other, nowIso, hother, hactive, -, -⟩
    · exact hsame
    · exact absurd rfl (hne hother hactive)
  | noted h =>
    obtain ⟨other, hother, hactive⟩ := h.active
    exact dossier_noted hknown h (hne hother hactive)
  | related checks accepted h =>
    exact (dossier_linked_iff h).mpr ((relationsOf_insert accepted h).mpr (hspares _ checks accepted))
  | @unrelated actor ofCardId relationId relation checks h =>
    obtain ⟨-, hstored⟩ := runs_deleteRelationChecks checks
    have hid : relation.id = relationId := Table.find?_key hstored
    rw [← hid] at h
    exact (dossier_linked_iff h).mpr
      ((relationsOf_remove (Table.mem_of_find? hstored) h).mpr (hspares _ checks))
  | unlocated => exact hacts.elim

/-- Guarded operations leave the dossier of an archived card alone. -/
theorem dossier_step {op : Operation} {card : Card} (hknown : TagsKnown w.store)
    (hfound : w.store.cards.find? cardId = some card) (harchived : card.archivedAt ≠ none)
    (hacts : ActsOnCards op) (hspares : SparesDossier cardId w op) :
    dossier (step w op).store cardId = dossier w.store cardId := by
  cases op with
  | administration op => exact hacts.elim
  | collaboration op =>
    exact dossier_effect hknown hfound harchived hacts hspares (effect_collaboration op)
  | card op =>
    have hinv : TagsKnown (step w (.card op)).store ∧
        dossier (step w (.card op)).store cardId = dossier w.store cardId := by
      refine step_induction
        (I := fun w' => TagsKnown w'.store ∧ dossier w'.store cardId = dossier w.store cardId)
        (P := fun w' op' => op' = .card op ∧ SparesDossier cardId w' op') ?_ ?_ ?_ ⟨hknown, rfl⟩
        ⟨rfl, hspares⟩
      · rintro w₁ w₂ _ hstore ⟨rfl, h⟩
        exact ⟨rfl, h.of_store hstore⟩
      · rintro w₁ w₂ actor ⟨hop, -⟩
        exact ⟨hop, trivial⟩
      · rintro w₁ w₂ _ ⟨hknown₁, hsame⟩ ⟨rfl, h⟩ heffect
        have hfound₁ : w₁.store.cards.find? cardId = some card :=
          (congrArg Dossier.card hsame).trans hfound
        exact ⟨tagsKnown_effect hknown₁ heffect,
          (dossier_effect hknown₁ hfound₁ harchived hacts h heffect).trans hsame⟩
    exact hinv.2

theorem step_collaboration (op : CollaborationOperation) {u : Unit} (h : Runs op.body w u w') :
    step w (.collaboration op) = w' := by
  have htransact := congrArg Prod.snd (transact_ok_iff.mpr h)
  exact htransact

/-- An unchecked write about the card changes its dossier. -/
theorem sparesDossier_of_eq {op : Operation} {card : Card}
    (hfound : w.store.cards.find? cardId = some card)
    (heq : dossier (step w op).store cardId = dossier w.store cardId) :
    SparesDossier cardId w op := by
  unfold SparesDossier
  split
  · next actor deletedId expectedVersion =>
    intro deleted hchecks
    obtain ⟨-, hdeleted, -⟩ := runs_deleteChecks hchecks
    have hrun : Runs (CardService.deleteBody actor deletedId expectedVersion) w _
        (w.withStore (withoutCard w.store deletedId)) :=
      runs_bind_iff.mpr ⟨deleted, w, hchecks, runs_hardDelete_iff.mpr ⟨⟨deleted, hdeleted⟩, rfl, rfl⟩⟩
    have hstep : step w (.card (.delete actor deletedId expectedVersion)) =
        w.withStore (withoutCard w.store deletedId) := by
      have htransact := congrArg Prod.snd (transact_ok_iff.mpr hrun)
      exact htransact
    rw [hstep] at heq
    obtain ⟨-, hdiscarded⟩ := runs_deleteBody hrun
    constructor
    · rintro rfl
      have hcard := congrArg Dossier.card heq
      simp only [dossier, hdiscarded.cards, Table.find?_remove, hfound] at hcard
      have hid : card.id = deletedId := Table.find?_key hfound
      simp [hid] at hcard
    · exact (relationsOf_discarded hdiscarded).mp (congrArg Dossier.relations heq)
  · next actor fromCardId raw =>
    intro checked hchecks haccepts
    have hrun : Runs (discard (CardRelationService.create actor fromCardId raw)) w ()
        (w.tick.tick.withStore { w.store with
          cardRelations := w.store.cardRelations.insert (linkRow w checked) }) :=
      runs_discard_iff.mpr ⟨_, runs_createRelation_iff.mpr ⟨checked, hchecks, haccepts, rfl, rfl⟩⟩
    have hlinked : Linked w (step w (.collaboration (.createRelation actor fromCardId raw)))
        (w.store.cardRelations.insert (linkRow w checked)) := by
      rw [step_collaboration (.createRelation actor fromCardId raw) hrun]
      exact ⟨rfl, rfl, show w.drawn ≤ w.drawn + 1 + 1 by omega⟩
    exact (relationsOf_insert haccepts hlinked).mp ((dossier_linked_iff hlinked).mp heq)
  · next actor ofCardId relationId =>
    intro relation hchecks
    have hrun : Runs (CardRelationService.delete actor ofCardId relationId) w ()
        (w.withStore { w.store with
          cardRelations := w.store.cardRelations.remove fun r => r.id == relationId }) :=
      runs_deleteRelation_iff.mpr ⟨⟨relation, hchecks⟩, rfl⟩
    obtain ⟨-, hstored⟩ := runs_deleteRelationChecks hchecks
    have hid : relation.id = relationId := Table.find?_key hstored
    have hlinked : Linked w (step w (.collaboration (.deleteRelation actor ofCardId relationId)))
        (w.store.cardRelations.remove fun r => r.id == relation.id) := by
      rw [step_collaboration (.deleteRelation actor ofCardId relationId) hrun, hid]
      exact ⟨rfl, rfl, le_rfl⟩
    exact (relationsOf_remove (Table.mem_of_find? hstored) hlinked).mp
      ((dossier_linked_iff hlinked).mp heq)
  · trivial

/-- In every reachable store, the operations that may be about cards leave an archived card's
dossier as it was exactly when no unchecked write is about it. -/
theorem archived_frozen_iff (inputs : ℕ → Tick) (ops : List Operation) (op : Operation) (cardId : ℕ)
    (card : Card) (hfound : (run (freshlySeeded inputs) ops).store.cards.find? cardId = some card)
    (harchived : card.archivedAt ≠ none) (hacts : ActsOnCards op) :
    dossier (step (run (freshlySeeded inputs) ops) op).store cardId =
        dossier (run (freshlySeeded inputs) ops).store cardId ↔
      SparesDossier cardId (run (freshlySeeded inputs) ops) op :=
  ⟨sparesDossier_of_eq hfound, dossier_step (tagsKnown_run inputs ops) hfound harchived hacts⟩

end frozen

/-- Two cards, of which the first is completed and archived. -/
def archivedRun : List Operation :=
  [.card (.create ⟨101, 102, .sqlite⟩ sampleActor { title := "Pump" } {}),
    .card (.create ⟨101, 102, .sqlite⟩ sampleActor { title := "Valve" } {}),
    .card (.move sampleActor 1 ⟨"done", none, none, none, none, 1⟩),
    .card (.archive sampleActor 1 ⟨2⟩)]

/-- The archived card after the run. -/
def archivedCard : Option Card :=
  (@run samplePlatform (freshlySeeded sampleTicks) archivedRun).store.cards.find? 1

theorem archived_frozen_iff_block : archivedCard ≠ none ∧
    ∀ card, archivedCard = some card → card.archivedAt ≠ none →
      (dossier (@step samplePlatform
            (@run samplePlatform (freshlySeeded sampleTicks) archivedRun)
            (.card (.block sampleActor 1 ⟨"late", 3⟩))).store 1 =
          dossier (@run samplePlatform (freshlySeeded sampleTicks) archivedRun).store 1 ↔
        True) :=
  ⟨by decide +kernel, fun card hfound harchived =>
    @archived_frozen_iff samplePlatform sampleTicks archivedRun
      (.card (.block sampleActor 1 ⟨"late", 3⟩)) 1 card hfound harchived trivial⟩

/-- A relation to an archived card is accepted. -/
theorem archived_frozen_fails : ¬ ∀ (_ : Platform) (inputs : ℕ → Tick) (ops : List Operation)
    (op : Operation) (cardId : ℕ) (card : Card),
    (run (freshlySeeded inputs) ops).store.cards.find? cardId = some card →
    card.archivedAt ≠ none → ActsOnCards op →
    dossier (step (run (freshlySeeded inputs) ops) op).store cardId =
      dossier (run (freshlySeeded inputs) ops).store cardId := by
  intro h
  have hfound : ∃ card ∈ archivedCard, card.archivedAt ≠ none := by decide +kernel
  obtain ⟨card, hcard, harchived⟩ := hfound
  have hsame := h samplePlatform sampleTicks archivedRun
    (.collaboration (.createRelation sampleActor 2 ⟨1, .blocks⟩)) 1 card hcard harchived trivial
  revert hsame
  decide +kernel

end AiKanban.Invariants
