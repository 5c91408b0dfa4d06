import AiKanban.Invariants.CatalogView
import AiKanban.Invariants.WaitingReasons

/-!
# Relations between cards

No relation links a card to itself or repeats another one, its two ends are cards of one
board, and each end lists it once.
-/
namespace AiKanban.Invariants

open Application Db Domain Effects Relational Services Transactions

/-- The same link: a symmetric type does not tell the two directions apart. -/
def SameRelation (a b : CardRelation) : Prop :=
  a.type = b.type ∧ (a.fromCardId = b.fromCardId ∧ a.toCardId = b.toCardId ∨
    isSymmetricRelation a.type = true ∧ a.fromCardId = b.toCardId ∧ a.toCardId = b.fromCardId)

theorem SameRelation.symm {a b : CardRelation} (h : SameRelation a b) : SameRelation b a := by
  obtain ⟨htype, ⟨hfrom, hto⟩ | ⟨hsymmetric, hfrom, hto⟩⟩ := h
  · exact ⟨htype.symm, .inl ⟨hfrom.symm, hto.symm⟩⟩
  · exact ⟨htype.symm, .inr ⟨htype ▸ hsymmetric, hto.symm, hfrom.symm⟩⟩

structure RelationIntegrity (s : Store) : Prop where
  irreflexive : ∀ r ∈ s.cardRelations.rows, r.fromCardId ≠ r.toCardId
  distinct : ∀ a ∈ s.cardRelations.rows, ∀ b ∈ s.cardRelations.rows, SameRelation a b → a = b
  ends : ∀ r ∈ s.cardRelations.rows, ∃ source ∈ s.cards.rows, ∃ target ∈ s.cards.rows,
    source.id = r.fromCardId ∧ target.id = r.toCardId ∧ source.boardId = target.boardId

section steps

variable {w w' : World Store Tick} {s s' : Store}

/-- Every card is still there, on its board. -/
def CardsStay (s s' : Store) : Prop :=
  ∀ card ∈ s.cards.rows, ∃ card' ∈ s'.cards.rows, card'.id = card.id ∧ card'.boardId = card.boardId

theorem CardsStay.of_cards (h : s'.cards = s.cards) : CardsStay s s' := by
  intro card hcard
  exact ⟨card, by rwa [h], rfl, rfl⟩

/-- Only a discard takes a card away, and no card changes boards. -/
theorem cardsStay_or_discarded [Platform] {op : Operation} (h : Effect w w' op) :
    CardsStay w.store w'.store ∨ ∃ cardId, Discarded w w' cardId := by
  cases h with
  | untouched h => exact .inl (.of_cards (h.frame .cards (by decide)))
  | created h =>
    left
    intro card hcard
    refine ⟨card, ?_, rfl, rfl⟩
    rw [h.cards]
    exact Table.mem_insert.mpr (.inl hcard)
  | @changed _ card next _ h =>
    left
    intro c hc
    have hfound := h.rewritten.found
    by_cases hid : c.id = card.id
    · obtain rfl : c = card := Table.eq_of_key hc (Table.mem_of_find? hfound) hid
      exact ⟨next, Table.mem_of_find? h.rewritten.find?_self, h.rewritten.key, boardId_change h.change⟩
    · have hfind := (h.rewritten.find?_ne hid).trans (Table.find?_of_mem hc)
      exact ⟨c, Table.mem_of_find? hfind, rfl, rfl⟩
  | discarded _ h => exact .inr ⟨_, h⟩
  | alerted h =>
    left
    intro card hcard
    have hfind : w.store.cards.find? card.id = some card := Table.find?_of_mem hcard
    rcases h.cards card.id with hsame | ⟨marked, nowIso, hfound, -, -, hmarked⟩
    · exact ⟨card, Table.mem_of_find? (hsame.trans hfind), rfl, rfl⟩
    · obtain rfl := Option.some.inj (hfound.symm.trans hfind)
      exact ⟨_, Table.mem_of_find? hmarked, rfl, rfl⟩
  | noted h => exact .inl (.of_cards (h.frame .cards (by decide)))
  | related _ _ h | unrelated _ h => exact .inl (.of_cards (by rw [h.store]))
  | unlocated _ _ h =>
    left
    intro card hcard
    rw [h.cards]
    refine ⟨_, List.mem_map.mpr ⟨card, hcard, rfl⟩, ?_⟩
    split_ifs <;> exact ⟨rfl, rfl⟩

theorem RelationIntegrity.of_sub (h : RelationIntegrity s)
    (hrelations : ∀ r ∈ s'.cardRelations.rows, r ∈ s.cardRelations.rows)
    (hcards : ∀ r ∈ s'.cardRelations.rows, ∀ card ∈ s.cards.rows,
      card.id = r.fromCardId ∨ card.id = r.toCardId →
        ∃ card' ∈ s'.cards.rows, card'.id = card.id ∧ card'.boardId = card.boardId) :
    RelationIntegrity s' where
  irreflexive := fun r hr => h.irreflexive r (hrelations r hr)
  distinct := fun a ha b hb => h.distinct a (hrelations a ha) b (hrelations b hb)
  ends := by
    intro r hr
    obtain ⟨source, hsource, target, htarget, hfrom, hto, hboard⟩ := h.ends r (hrelations r hr)
    obtain ⟨source', hsource', hid, hhome⟩ := hcards r hr source hsource (.inl hfrom)
    obtain ⟨target', htarget', hid', hhome'⟩ := hcards r hr target htarget (.inr hto)
    exact ⟨source', hsource', target', htarget', hid.trans hfrom, hid'.trans hto,
      hhome.trans (hboard.trans hhome'.symm)⟩

theorem RelationIntegrity.of_stay (h : RelationIntegrity s) (hstay : CardsStay s s')
    (hrelations : ∀ r ∈ s'.cardRelations.rows, r ∈ s.cardRelations.rows) : RelationIntegrity s' :=
  h.of_sub hrelations fun _ _ card hcard _ => hstay card hcard

/-- What the checks of a new relation have established. -/
theorem runs_relationGuards {actor : Actor} {cardId : ℕ} {raw : CreateCardRelationInput}
    {checked : RelationType × Card × Card}
    (h : Runs (CardRelationService.createChecks actor cardId raw) w checked w') :
    checked.2.1.id ≠ checked.2.2.id ∧ checked.2.1.boardId = checked.2.2.boardId ∧
      ∀ r ∈ w.store.cardRelations.rows, ¬ SameRelation r (linkRow w checked) := by
  obtain ⟨type, source, target⟩ := checked
  obtain ⟨-, hsourceFound, htargetFound⟩ := runs_createRelationChecks h
  unfold CardRelationService.createChecks at h
  replace h := runs_bind_iff.mp h
  obtain ⟨input, _, hparse, h⟩ := h
  obtain ⟨-, rfl⟩ := runs_ofExcept_iff.mp hparse
  simp only [CardRelationRepository.exists', runs_bind_iff, runs_ensure_iff, runs_ofExcept_iff,
    runs_read_iff, runs_pure_iff, Prod.mk.injEq] at h
  obtain ⟨_, _, ⟨hother, rfl⟩, _, _, hsource, _, w₀, htarget, _, _, ⟨hboard, rfl⟩, policy, _, hpolicy,
    _, _, ⟨-, rfl⟩, _, _, ⟨rfl, rfl⟩, _, _, ⟨rfl, rfl⟩, _, _, ⟨hnew, rfl⟩, ⟨rfl, rfl, rfl⟩, rfl⟩ := h
  obtain rfl := hpolicy.of_readsOnly readsOnly_globalPolicy
  obtain ⟨rfl, hsource⟩ := runs_accessibleCard hsource
  obtain ⟨rfl, htarget⟩ := runs_accessibleCard htarget
  have hsourceId : source.id = cardId := Table.find?_key hsource
  have htargetId : target.id = input.toCardId := Table.find?_key htarget
  refine ⟨?_, by simpa using hboard, ?_⟩
  · rw [hsourceId, htargetId]
    exact Ne.symm (by simpa using hother)
  · rintro r hr ⟨htype, hends⟩
    simp only [Bool.not_eq_true', Bool.or_eq_false_iff, Bool.and_eq_false_iff, List.any_eq_false,
      Bool.and_eq_true, beq_iff_eq] at hnew
    rcases hends with ⟨hfrom, hto⟩ | ⟨hsymmetric, hfrom, hto⟩
    · exact hnew.1 r hr ⟨⟨hfrom, hto⟩, htype⟩
    · rcases hnew.2 with hdirected | hbackward
      · rw [htype] at hsymmetric
        rw [linkRow] at hsymmetric
        rw [hsymmetric] at hdirected
        cases hdirected
      · exact hbackward r hr ⟨⟨hfrom, hto⟩, htype⟩

theorem relationIntegrity_related {actor : Actor} {cardId : ℕ} {raw : CreateCardRelationInput}
    {checked : RelationType × Card × Card} (hw : RelationIntegrity w.store)
    (hchecks : Runs (CardRelationService.createChecks actor cardId raw) w checked w)
    (haccepts : w.store.cardRelations.accepts (linkRow w checked) = true)
    (h : Linked w w' (w.store.cardRelations.insert (linkRow w checked))) :
    RelationIntegrity w'.store := by
  obtain ⟨type, source, target⟩ := checked
  obtain ⟨-, hsource, htarget⟩ := runs_createRelationChecks hchecks
  obtain ⟨hother, hboard, hnew⟩ := runs_relationGuards hchecks
  have hmem : ∀ r ∈ w'.store.cardRelations.rows,
      r ∈ w.store.cardRelations.rows ∨ r = linkRow w (type, source, target) := by
    intro r hr
    rw [h.store] at hr
    exact (Table.mem_insert.mp hr).imp_right And.right
  have hcards : w'.store.cards = w.store.cards := by rw [h.store]
  refine ⟨?_, ?_, ?_⟩
  · intro r hr
    rcases hmem r hr with hold | rfl
    · exact hw.irreflexive r hold
    · exact hother
  · intro a ha b hb hsame
    rcases hmem a ha with haold | rfl
    · rcases hmem b hb with hbold | rfl
      · exact hw.distinct a haold b hbold hsame
      · exact absurd hsame (hnew a haold)
    · rcases hmem b hb with hbold | rfl
      · exact absurd hsame.symm (hnew b hbold)
      · rfl
  · rw [hcards]
    intro r hr
    rcases hmem r hr with hold | rfl
    · exact hw.ends r hold
    · exact ⟨source, Table.mem_of_find? hsource, target, Table.mem_of_find? htarget, rfl, rfl, hboard⟩

/-- One unit of work keeps the relations sound. -/
theorem relationIntegrity_effect [Platform] {op : Operation} (hw : RelationIntegrity w.store)
    (h : Effect w w' op) : RelationIntegrity w'.store := by
  rcases cardsStay_or_discarded h with hstay | ⟨cardId, hdiscarded⟩
  · have hframe : w.store.SameTable .cardRelations w'.store → RelationIntegrity w'.store := by
      intro hsame
      apply hw.of_stay hstay
      intro r hr
      have hrelations : w'.store.cardRelations = w.store.cardRelations := hsame
      rwa [hrelations] at hr
    cases h with
    | untouched h => exact hframe (h.frame .cardRelations (by decide))
    | created h => exact hframe (h.frame .cardRelations (by decide))
    | changed h => exact hframe (h.rewritten.frame .cardRelations (by decide))
    | discarded _ h =>
      apply hw.of_stay hstay
      intro r hr
      rw [h.cardRelations] at hr
      exact (Table.mem_remove.mp hr).1
    | alerted h => exact hframe (h.frame .cardRelations (by decide))
    | noted h => exact hframe (h.frame .cardRelations (by decide))
    | related hchecks haccepts h => exact relationIntegrity_related hw hchecks haccepts h
    | unrelated _ h =>
      apply hw.of_stay hstay
      intro r hr
      rw [h.store] at hr
      exact (Table.mem_remove.mp hr).1
    | unlocated _ _ h => exact hframe (h.frame .cardRelations (by decide) (by decide))
  · -- A discard takes the relations of its card along.
    apply hw.of_sub
    · intro r hr
      rw [hdiscarded.cardRelations] at hr
      exact (Table.mem_remove.mp hr).1
    · intro r hr card hcard hend
      rw [hdiscarded.cardRelations] at hr
      obtain ⟨-, hother⟩ := Table.mem_remove.mp hr
      simp only [Bool.or_eq_false_iff, beq_eq_false_iff_ne] at hother
      refine ⟨card, ?_, rfl, rfl⟩
      rw [hdiscarded.cards]
      refine Table.mem_remove.mpr ⟨hcard, beq_eq_false_iff_ne.mpr ?_⟩
      rcases hend with hfrom | hto
      · exact hfrom ▸ hother.1
      · exact hto ▸ hother.2

theorem relationIntegrity_run [Platform] (inputs : ℕ → Tick) (ops : List Operation) :
    RelationIntegrity (run (freshlySeeded inputs) ops).store := by
  have hnone : (freshlySeeded inputs).store.cardRelations.rows = [] :=
    congrArg Table.rows (freshlySeeded_sameTable inputs (by decide) :
      ({} : Store).SameTable .cardRelations _)
  refine run_invariant (I := fun w => RelationIntegrity w.store) (P := fun _ _ => True)
    (fun _ _ _ _ _ => trivial) (fun _ _ _ _ => trivial)
    (fun _ _ _ hw _ heffect => relationIntegrity_effect hw heffect) ops ?_ (runsUnder_true ops)
  constructor
  · simp [hnone]
  · simp [hnone]
  · simp [hnone]

end steps

section listing

variable {w : World Store Tick} {actor : Actor}

/-- The card at the other end of a relation. -/
def otherEnd (cardId : ℕ) (r : CardRelation) : ℕ :=
  if r.fromCardId = cardId then r.toCardId else r.fromCardId

/-- What a card's list shows of a relation to another card. -/
def relationView (cardId : ℕ) (r : CardRelation) (title : String) : CardRelationView where
  id := r.id
  type := r.type
  direction := if r.fromCardId = cardId then .outgoing else .incoming
  cardId := otherEnd cardId r
  title := title

/-- The title of the card at the other end. -/
def otherTitle (s : Store) (cardId : ℕ) (r : CardRelation) : String :=
  ((s.cards.find? (otherEnd cardId r)).map (·.title)).getD ""

theorem runs_toView {cardId : ℕ} {r : CardRelation} {other : Card} {board : Board}
    (hother : w.store.cards.find? (otherEnd cardId r) = some other)
    (hboard : w.store.boards.find? other.boardId = some board)
    (haccess : Runs (canAccessBoard actor board) w true w) :
    Runs (CardRelationService.toView actor cardId r) w
      (some (relationView cardId r (otherTitle w.store cardId r))) w := by
  have hid : other.id = otherEnd cardId r := Table.find?_key hother
  unfold CardRelationService.toView
  refine runs_bind_iff.mpr ⟨some other, w, runs_selectKey_iff.mpr ⟨hother.symm, rfl⟩, ?_⟩
  refine runs_bind_iff.mpr ⟨some board, w, runs_selectKey_iff.mpr ⟨hboard.symm, rfl⟩, ?_⟩
  refine runs_bind_iff.mpr ⟨true, w, haccess, runs_pure_iff.mpr ⟨?_, rfl⟩⟩
  simp [relationView, otherTitle, hother, hid]

theorem runs_views {cardId : ℕ} {relations : List CardRelation} {board : Board}
    (hboard : w.store.boards.find? board.id = some board)
    (haccess : Runs (canAccessBoard actor board) w true w)
    (hother : ∀ r ∈ relations, ∃ other, w.store.cards.find? (otherEnd cardId r) = some other ∧
      other.boardId = board.id) :
    Runs (CardRelationService.views actor cardId relations) w
      (relations.map fun r => relationView cardId r (otherTitle w.store cardId r)) w := by
  induction relations with
  | nil => exact runs_pure_iff.mpr ⟨rfl, rfl⟩
  | cons r relations ih =>
    obtain ⟨other, hfound, hhome⟩ := hother r (List.mem_cons_self ..)
    have hrest := ih fun r hr => hother r (List.mem_cons_of_mem _ hr)
    have hview := runs_toView hfound (hhome ▸ hboard) haccess
    exact runs_bind_iff.mpr ⟨_, w, hview, runs_bind_iff.mpr ⟨_, w, hrest, runs_pure_iff.mpr ⟨rfl, rfl⟩⟩⟩

theorem runs_accessibleCard_of_access {card : Card} {board : Board}
    (hcard : card ∈ w.store.cards.rows) (haccess : CanAccess actor w board)
    (hhome : card.boardId = board.id) : Runs (accessibleCard actor card.id) w card w := by
  have hfound : w.store.cards.find? card.id = some card := Table.find?_of_mem hcard
  have hboard : w.store.boards.find? card.boardId = some board :=
    Table.find?_eq_some_iff.mpr ⟨haccess.1, hhome.symm⟩
  have hallowed : Runs (requireBoardAccess actor card.boardId) w board w := by
    refine runs_bind_iff.mpr ⟨some board, w, runs_selectKey_iff.mpr ⟨hboard.symm, rfl⟩, ?_⟩
    refine runs_bind_iff.mpr ⟨board, w, runs_requireFound_iff.mpr ⟨rfl, rfl⟩, ?_⟩
    refine runs_bind_iff.mpr ⟨true, w, haccess.2, ?_⟩
    exact runs_bind_iff.mpr ⟨(), w, runs_ensure_iff.mpr ⟨rfl, rfl⟩, runs_pure_iff.mpr ⟨rfl, rfl⟩⟩
  refine runs_bind_iff.mpr ⟨some card, w, runs_selectKey_iff.mpr ⟨hfound.symm, rfl⟩, ?_⟩
  refine runs_bind_iff.mpr ⟨card, w, runs_requireFound_iff.mpr ⟨rfl, rfl⟩, ?_⟩
  exact runs_bind_iff.mpr ⟨board, w, hallowed, runs_pure_iff.mpr ⟨rfl, rfl⟩⟩

/-- The list of a card shows each of its relations once, from its end, and nothing else. -/
def ListsOnce (actor : Actor) (w : World Store Tick) (cardId : ℕ) : Prop :=
  ∃ listed, Runs (CardRelationService.list actor cardId) w listed w ∧
    (∀ r ∈ relationsOf w.store cardId, listed.filter (fun view => view.id == r.id) =
      [relationView cardId r (otherTitle w.store cardId r)]) ∧
    ∀ view ∈ listed, ∃ r ∈ relationsOf w.store cardId, view.id = r.id

theorem listsOnce_of_integrity {card : Card} {board : Board} (hw : RelationIntegrity w.store)
    (hcard : card ∈ w.store.cards.rows) (haccess : CanAccess actor w board)
    (hhome : card.boardId = board.id) : ListsOnce actor w card.id := by
  have hlisted := runs_accessibleCard_of_access hcard haccess hhome
  generalize hrows : newestFirst (·.createdAt) (·.id) (relationsOf w.store card.id) = rows
  have hperm : rows.Perm (relationsOf w.store card.id) := hrows ▸ List.perm_insertionSort _ _
  have hother : ∀ r ∈ rows, ∃ other,
      w.store.cards.find? (otherEnd card.id r) = some other ∧ other.boardId = board.id := by
    intro r hr
    obtain ⟨hmem, hend⟩ := List.mem_filter.mp (hperm.mem_iff.mp hr)
    obtain ⟨source, hsource, target, htarget, hfrom, hto, hboard⟩ := hw.ends r hmem
    unfold otherEnd
    split_ifs with hout
    · have hself : source = card := Table.eq_of_key hsource hcard (hfrom.trans hout)
      exact ⟨target, hto ▸ Table.find?_of_mem htarget, hboard ▸ hself ▸ hhome⟩
    · have hin : r.toCardId = card.id := by simpa [hout] using hend
      have hself : target = card := Table.eq_of_key htarget hcard (hto.trans hin)
      exact ⟨source, hfrom ▸ Table.find?_of_mem hsource, hboard.trans (hself ▸ hhome)⟩
  refine ⟨rows.map fun r => relationView card.id r (otherTitle w.store card.id r), ?_, ?_, ?_⟩
  · refine runs_bind_iff.mpr ⟨card, w, hlisted, ?_⟩
    refine runs_bind_iff.mpr ⟨rows, w, runs_read_iff.mpr ⟨hrows.symm, rfl⟩, ?_⟩
    exact runs_views (Table.find?_of_mem haccess.1) haccess.2 hother
  · intro r hr
    obtain ⟨hmem, -⟩ := List.mem_filter.mp hr
    -- The rows have distinct ids, so the view with this one is the view of this row.
    have honly : rows.filter (fun x => x.id == r.id) = [r] := by
      apply List.perm_singleton.mp
      refine (hperm.filter _).trans ?_
      have hself : (relationsOf w.store card.id).filter (fun x => x.id == r.id) = [r] := by
        have hkey := Table.filter_key hmem
        rw [relationsOf, List.filter_comm]
        change (w.store.cardRelations.rows.filter fun x => decide (x.id = r.id)) = [r] at hkey
        have hsame : (w.store.cardRelations.rows.filter fun x => x.id == r.id) = [r] := by
          simpa [beq_eq_decide] using hkey
        rw [hsame, List.filter_singleton, (List.mem_filter.mp hr).2]
        rfl
      rw [hself]
    rw [List.filter_map]
    change (rows.filter fun x => x.id == r.id).map _ = _
    rw [honly]
    rfl
  · intro view hview
    obtain ⟨r, hr, rfl⟩ := List.mem_map.mp hview
    exact ⟨r, hperm.mem_iff.mp hr, rfl⟩

end listing

/-- In every reachable state the relations are sound, and whoever can access the board of a
card sees each of its relations once. -/
theorem relations_sound [Platform] (inputs : ℕ → Tick) (ops : List Operation) :
    RelationIntegrity (run (freshlySeeded inputs) ops).store ∧
      ∀ (actor : Actor) (card : Card) (board : Board),
        card ∈ (run (freshlySeeded inputs) ops).store.cards.rows →
          CanAccess actor (run (freshlySeeded inputs) ops) board → card.boardId = board.id →
            ListsOnce actor (run (freshlySeeded inputs) ops) card.id := by
  have hsound := relationIntegrity_run inputs ops
  exact ⟨hsound, fun _ _ _ hcard haccess hhome => listsOnce_of_integrity hsound hcard haccess hhome⟩

/-- Two cards that relate to each other, and a third that blocks the first. -/
def relatedCards : List Operation :=
  [.card (.create ⟨101, 102, .sqlite⟩ sampleActor { title := "Pump" } {}),
    .card (.create ⟨101, 102, .sqlite⟩ sampleActor { title := "Valve" } {}),
    .card (.create ⟨101, 102, .sqlite⟩ sampleActor { title := "Gasket" } {}),
    .collaboration (.createRelation sampleActor 1 ⟨2, .relatesTo⟩),
    .collaboration (.createRelation sampleActor 3 ⟨1, .blocks⟩),
    .collaboration (.createRelation sampleActor 2 ⟨1, .relatesTo⟩)]

/-- The relation the other way round was rejected; either card lists the one there is. -/
theorem relations_sound_related :
    (relationsOf (@run samplePlatform (freshlySeeded sampleTicks) relatedCards).store 1).length = 2 ∧
      (relationsOf (@run samplePlatform (freshlySeeded sampleTicks) relatedCards).store 2).length = 1 ∧
      ListsOnce sampleActor (@run samplePlatform (freshlySeeded sampleTicks) relatedCards) 1 ∧
      ListsOnce sampleActor (@run samplePlatform (freshlySeeded sampleTicks) relatedCards) 2 := by
  have hlists : ∀ id, (∃ card ∈ (@run samplePlatform (freshlySeeded sampleTicks)
      relatedCards).store.cards.rows, card.id = id ∧ card.boardId = 101) →
      ListsOnce sampleActor (@run samplePlatform (freshlySeeded sampleTicks) relatedCards) id := by
    rintro id ⟨card, hcard, rfl, hboard⟩
    obtain ⟨board, hmem, hid, haccess⟩ : ∃ board ∈ (@run samplePlatform (freshlySeeded sampleTicks)
        relatedCards).store.boards.rows, board.id = 101 ∧
          accessibleUnder defaultPolicyDocument (@run samplePlatform (freshlySeeded sampleTicks)
            relatedCards).store sampleActor board = true := by decide +kernel
    have hglobal : Runs globalPolicy (@run samplePlatform (freshlySeeded sampleTicks) relatedCards)
        defaultPolicyDocument _ := runs_globalPolicy_of_ok (by decide +kernel)
    have hallowed := runs_canAccessBoard hglobal sampleActor board
    rw [haccess] at hallowed
    exact (@relations_sound samplePlatform sampleTicks relatedCards).2 sampleActor card board hcard
      ⟨hmem, hallowed⟩ (hboard.trans hid.symm)
  refine ⟨by decide +kernel, by decide +kernel, hlists 1 ?_, hlists 2 ?_⟩
  · decide +kernel
  · decide +kernel

end AiKanban.Invariants
